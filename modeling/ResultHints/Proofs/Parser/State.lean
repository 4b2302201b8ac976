import Mathlib.Data.List.Nodup
import Mathlib.Logic.Relation
import ResultHints.Parser.Basic
import ResultHints.Proofs.Grammar.Spans

/-!
# Steps of a parser

What every step of a parser keeps. It takes lexemes and gives none back, and a node that it
has made it changes only once, when the node above it is made (`Parser.Grows`); it is always in
a layout, and never in more levels than there are (`Parser.Safe`). The nodes that it has made
hold the trees that are read (`Parser.Holds`): those that have no node above them yet are
*pending*, and a new node may be made above them (`Parser.Pending.make`). A session goes from one
state to the other by such steps (`Session.Leads`).
-/

namespace ResultHints

/-- What may become of a node: it gets a node above it, if it has none. -/
structure Cell.Becomes (c c' : Cell) : Prop where
  shape : c'.shape = c.shape
  children : c'.children = c.children
  parent : c.parent = none ∨ c'.parent = c.parent

namespace Cell.Becomes

variable {c c' c'' : Cell}

theorem refl (c : Cell) : c.Becomes c := ⟨rfl, rfl, .inr rfl⟩

theorem trans (h : c.Becomes c') (h' : c'.Becomes c'') : c.Becomes c'' := by
  refine ⟨h'.shape.trans h.shape, h'.children.trans h.children, ?_⟩
  rcases h.parent with hnone | heq
  · exact .inl hnone
  · rw [← heq]
    exact h'.parent

end Cell.Becomes

namespace Parser

variable {p q r : Parser} {t : Lexeme} {u : Fragment} {us vs : List Fragment} {i : NodeId}
  {shape : Shape} {m : Layout}

/-! ## Growing -/

/-- The parser `q` is further on in the same text, and has all the nodes of `p`. -/
structure Grows (p q : Parser) : Prop where
  source : q.source = p.source
  lexemes : q.lexemes = p.lexemes
  pos : p.pos ≤ q.pos
  lastStop : p.lastStop ≤ q.lastStop
  cells : ∀ (i : NodeId) (c : Cell), p.arena[i]? = some c →
    ∃ c' : Cell, q.arena[i]? = some c' ∧ c.Becomes c'

namespace Grows

theorem refl (p : Parser) : p.Grows p :=
  ⟨rfl, rfl, Nat.le_refl _, Nat.le_refl _, fun _ c h => ⟨c, h, .refl c⟩⟩

theorem trans (h : p.Grows q) (h' : q.Grows r) : p.Grows r := by
  refine ⟨h'.source.trans h.source, h'.lexemes.trans h.lexemes, Nat.le_trans h.pos h'.pos,
    Nat.le_trans h.lastStop h'.lastStop, fun i c hc => ?_⟩
  obtain ⟨c', hc', hbecomes⟩ := h.cells i c hc
  obtain ⟨c'', hc'', hbecomes'⟩ := h'.cells i c' hc'
  exact ⟨c'', hc'', hbecomes.trans hbecomes'⟩

end Grows

/-! ## Safe states -/

/-- The parser is in a layout, and in no more levels than there are; it has taken no more lexemes
    than there are, and those ahead come in order after the last one taken. -/
structure Safe (p : Parser) : Prop where
  layouts : p.layouts ≠ []
  depth : p.depth ≤ maxNesting
  pos : p.pos ≤ p.lexemes.length
  ordered : p.cursor.IsOrdered

/-- What is ahead of a parser begins with its next lexeme. -/
theorem rest_cases (p : Parser) :
    p.lexemes[p.pos]? = none ∧ p.cursor.rest = [] ∨
      ∃ t, p.lexemes[p.pos]? = some t ∧ p.cursor.rest = t :: (p.take t).cursor.rest := by
  cases ht : p.lexemes[p.pos]? with
  | none => exact .inl ⟨rfl, List.drop_eq_nil_of_le (List.getElem?_eq_none_iff.1 ht)⟩
  | some t =>
    obtain ⟨hlt, rfl⟩ := List.getElem?_eq_some_iff.1 ht
    exact .inr ⟨_, rfl, List.drop_eq_getElem_cons hlt⟩

theorem Safe.take (h : p.Safe) (ht : p.lexemes[p.pos]? = some t) :
    (p.take t).Safe ∧ p.Grows (p.take t) := by
  obtain ⟨hnone, -⟩ | ⟨t', ht', hrest⟩ := p.rest_cases
  · cases ht.symm.trans hnone
  · obtain rfl : t' = t := Option.some.inj (ht'.symm.trans ht)
    have hordered : InOrder p.lastStop p.cursor.rest := h.ordered
    rw [hrest] at hordered
    obtain ⟨hle, hlt, hordered⟩ := hordered
    refine ⟨⟨h.layouts, h.depth, (List.getElem?_eq_some_iff.1 ht).1, hordered⟩, ?_⟩
    exact ⟨rfl, rfl, Nat.le_succ _, Nat.le_trans hle (Nat.le_of_lt hlt),
      fun _ c hc => ⟨c, hc, .refl c⟩⟩

/-- The parsers differ in their layouts and levels only. -/
structure Aligned (p q : Parser) : Prop where
  source : q.source = p.source
  lexemes : q.lexemes = p.lexemes
  pos : q.pos = p.pos
  lastStop : q.lastStop = p.lastStop
  arena : q.arena = p.arena

namespace Aligned

theorem grows (h : p.Aligned q) : p.Grows q :=
  ⟨h.source, h.lexemes, h.pos.ge, h.lastStop.ge, fun _ c hc => ⟨c, h.arena ▸ hc, .refl c⟩⟩

theorem cursor (h : p.Aligned q) : q.cursor = p.cursor := by
  rw [Parser.cursor, h.source, h.lexemes, h.pos, h.lastStop, h.arena, Parser.cursor]

theorem safe (h : p.Aligned q) (hp : p.Safe) (hlayouts : q.layouts ≠ [])
    (hdepth : q.depth ≤ maxNesting) : q.Safe := by
  refine ⟨hlayouts, hdepth, ?_, h.cursor ▸ hp.ordered⟩
  rw [h.pos, h.lexemes]
  exact hp.pos

theorem push (p : Parser) (m : Layout) : p.Aligned (p.push m) := ⟨rfl, rfl, rfl, rfl, rfl⟩

theorem pop (p : Parser) : p.Aligned p.pop := ⟨rfl, rfl, rfl, rfl, rfl⟩

theorem enter (p : Parser) : p.Aligned p.enter := ⟨rfl, rfl, rfl, rfl, rfl⟩

theorem leave (p : Parser) : p.Aligned p.leave := ⟨rfl, rfl, rfl, rfl, rfl⟩

end Aligned

/-! ## Nodes -/

/-- The node with the given id has no node above it. -/
def IsFree (p : Parser) (i : NodeId) : Prop := ∃ c, p.arena[i]? = some c ∧ c.parent = none

/-- The nodes of the parser hold a tree, with the given node above its root. -/
inductive Holds (p : Parser) : Option NodeId → Fragment → Prop
  | node {parent : Option NodeId} {a : Node} {us : List Fragment} :
    p.arena[a.id]? = some ⟨a.toShape, us.map fun u => u.label.id, parent⟩ →
    (∀ u ∈ us, Holds p (some a.id) u) → Holds p parent (.node a us)

theorem Holds.isFree (h : p.Holds none u) : p.IsFree u.label.id := by
  cases h with
  | node hcell _ => exact ⟨_, hcell, rfl⟩

/-- A tree below some node is held on. -/
theorem Holds.grows (h : p.Holds (some i) u) (hg : p.Grows q) : q.Holds (some i) u := by
  generalize hparent : some i = parent at h
  induction h generalizing i with
  | node hcell _ ih =>
    obtain ⟨c, hc, hshape, hchildren, hsame⟩ := hg.cells _ _ hcell
    subst hparent
    refine .node (hc.trans ?_) fun u hu => ih u hu rfl
    obtain ⟨shape, children, parent⟩ := c
    rw [show shape = _ from hshape, show children = _ from hchildren,
      show parent = _ from hsame.resolve_left nofun]

/-- A tree is held on, whatever becomes of its root. -/
theorem Holds.of_grows {parent parent' : Option NodeId} (h : p.Holds parent u) (hg : p.Grows q)
    (hroot : ∀ c, q.arena[u.label.id]? = some c → c.parent = parent') : q.Holds parent' u := by
  cases h with
  | node hcell hbelow =>
    obtain ⟨c, hc, hshape, hchildren, -⟩ := hg.cells _ _ hcell
    refine .node (hc.trans ?_) fun u hu => (hbelow u hu).grows hg
    obtain ⟨shape, children, parent⟩ := c
    rw [show shape = _ from hshape, show children = _ from hchildren,
      show parent = _ from hroot _ hc]

/-- The trees are held, are different ones, and have no nodes above them. -/
structure Pending (p : Parser) (us : List Fragment) : Prop where
  nodup : (us.map fun u => u.label.id).Nodup
  holds : ∀ u ∈ us, p.Holds none u

namespace Pending

theorem nil : p.Pending [] := ⟨.nil, nofun⟩

theorem sublist (h : p.Pending us) (hsub : vs.Sublist us) : p.Pending vs :=
  ⟨(hsub.map _).nodup h.nodup, fun u hu => h.holds u (hsub.mem hu)⟩

/-- Where no node is made, the trees stay pending. -/
theorem of_arena_eq (h : p.Pending us) (harena : q.arena = p.arena) : q.Pending us := by
  refine ⟨h.nodup, fun u hu => ?_⟩
  have hu := h.holds u hu
  have hall : ∀ {parent : Option NodeId} {u : Fragment}, p.Holds parent u → q.Holds parent u := by
    intro parent u hu
    induction hu with
    | node hcell _ ih => exact .node (harena ▸ hcell) ih
  exact hall hu

end Pending

/-! ## Making nodes -/

@[simp] theorem length_arena_make (p : Parser) (shape : Shape) (ids : List NodeId) :
    (p.make shape ids).arena.length = p.arena.length + 1 := by
  simp [make]

/-- The new node has the next free id. -/
theorem getElem?_make_self (p : Parser) (shape : Shape) (ids : List NodeId) :
    (p.make shape ids).arena[p.arena.length]? = some ⟨shape, ids, none⟩ := by
  simp [make]

/-- The nodes below the new one get it above them, and the others are as they were. -/
theorem getElem?_make_of_lt (shape : Shape) (ids : List NodeId) (h : i < p.arena.length) :
    (p.make shape ids).arena[i]? = p.arena[i]?.map fun c =>
      if i ∈ ids then { c with parent := some p.arena.length } else c := by
  rw [make, List.getElem?_append_left (by simpa using h), List.getElem?_mapIdx]

theorem cursor_make (p : Parser) (shape : Shape) (ids : List NodeId) :
    (p.make shape ids).cursor = { p.cursor with nextId := p.cursor.nextId + 1 } := by
  rw [cursor, length_arena_make]
  rfl

theorem Safe.make (h : p.Safe) (ids : List NodeId) : (p.make shape ids).Safe :=
  ⟨h.layouts, h.depth, h.pos, h.ordered⟩

theorem grows_make {ids : List NodeId} (hids : ∀ i ∈ ids, p.IsFree i) :
    p.Grows (p.make shape ids) := by
  refine ⟨rfl, rfl, Nat.le_refl _, Nat.le_refl _, fun i c hc => ?_⟩
  have hlt : i < p.arena.length := (List.getElem?_eq_some_iff.1 hc).1
  rw [getElem?_make_of_lt shape ids hlt, hc, Option.map_some]
  refine ⟨_, rfl, ?_⟩
  split
  · next hi =>
    obtain ⟨c', hc', hparent⟩ := hids i hi
    obtain rfl : c = c' := Option.some.inj (hc.symm.trans hc')
    exact ⟨rfl, rfl, .inl hparent⟩
  · exact .refl c

theorem Holds.lt_length (h : p.Holds none u) : u.label.id < p.arena.length := by
  obtain ⟨c, hc, -⟩ := h.isFree
  exact (List.getElem?_eq_some_iff.1 hc).1

/-- A tree that is pending is held on when a node is made, which may be above it. -/
theorem Holds.make {ids : List NodeId} (shape : Shape) (h : p.Holds none u)
    (hids : ∀ i ∈ ids, p.IsFree i) :
    (p.make shape ids).Holds (if u.label.id ∈ ids then some p.arena.length else none) u := by
  refine h.of_grows (grows_make hids) fun c hc => ?_
  obtain ⟨c', hc', hparent⟩ := h.isFree
  rw [getElem?_make_of_lt _ _ h.lt_length, hc', Option.map_some] at hc
  obtain rfl := Option.some.inj hc
  by_cases hmem : u.label.id ∈ ids
  · rw [if_pos hmem, if_pos hmem]
  · rw [if_neg hmem, if_neg hmem]
    exact hparent

/-- A node may be made above the trees that are pending last: it is pending in their place. -/
theorem Pending.make (h : p.Pending (vs ++ us)) (shape : Shape) :
    p.Grows (p.make shape (us.map fun u => u.label.id)) ∧
      (p.make shape (us.map fun u => u.label.id)).Pending
        (vs ++ [.node ⟨shape, p.arena.length⟩ us]) := by
  have hfree : ∀ i ∈ us.map fun u => u.label.id, p.IsFree i := fun i hi => by
    obtain ⟨u, hu, rfl⟩ := List.mem_map.1 hi
    exact (h.holds u (List.mem_append_right _ hu)).isFree
  have hnodup := h.nodup
  rw [List.map_append, List.nodup_append'] at hnodup
  obtain ⟨hvs, -, hdisjoint⟩ := hnodup
  refine ⟨grows_make hfree, ?_, fun v hv => ?_⟩
  · rw [List.map_append, List.nodup_append']
    refine ⟨hvs, List.nodup_singleton _, List.disjoint_singleton.2 fun hmem => ?_⟩
    obtain ⟨v, hv, hid⟩ := List.mem_map.1 hmem
    exact Nat.ne_of_lt (h.holds v (List.mem_append_left _ hv)).lt_length hid
  · rcases List.mem_append.1 hv with hv | hv
    · -- The trees before are not below the new node.
      have hheld := (h.holds v (List.mem_append_left _ hv)).make shape hfree
      rwa [if_neg (hdisjoint (List.mem_map.2 ⟨v, hv, rfl⟩))] at hheld
    · obtain rfl := List.mem_singleton.1 hv
      refine .node (getElem?_make_self ..) fun u hu => ?_
      have hheld := (h.holds u (List.mem_append_right _ hu)).make shape hfree
      rwa [if_pos (List.mem_map.2 ⟨u, hu, rfl⟩)] at hheld

end Parser

/-! ## Sessions -/

namespace Session

variable {s s₁ s' : Session}

/-- A step of a session: to a safe state that is further on, and the state before is remembered. -/
structure Step (s s' : Session) : Prop where
  before : s'.before = s.now :: s.before
  grows : s.now.Grows s'.now
  safe : s'.now.Safe

/-- A session leads to another one by steps. -/
def Leads : Session → Session → Prop := Relation.ReflTransGen Step

theorem Leads.refl (s : Session) : s.Leads s := Relation.ReflTransGen.refl

theorem Leads.trans (h : s.Leads s₁) (h' : s₁.Leads s') : s.Leads s' :=
  Relation.ReflTransGen.trans h h'

theorem Leads.single (h : s.Step s') : s.Leads s' := Relation.ReflTransGen.single h

theorem Leads.grows (h : s.Leads s') : s.now.Grows s'.now := by
  induction h with
  | refl => exact .refl _
  | tail _ hstep ih => exact ih.trans hstep.grows

theorem Leads.safe (h : s.Leads s') (hs : s.now.Safe) : s'.now.Safe := by
  cases h with
  | refl => exact hs
  | tail _ hstep => exact hstep.safe

/-- All states of a session, the latest first. -/
def states (s : Session) : List Parser := s.now :: s.before

/-- The states that a session goes through are all safe, and each is further on than those
    before it. -/
theorem Leads.exists_states (h : s.Leads s') : ∃ ps, s'.states = ps ++ s.states ∧
    (∀ p ∈ ps, p.Safe) ∧ (ps ++ [s.now]).Pairwise fun q p => p.Grows q := by
  induction h with
  | refl => exact ⟨[], rfl, nofun, List.pairwise_singleton _ _⟩
  | @tail s₁ s₂ hleads hstep ih =>
    obtain ⟨ps, hstates, hsafe, hgrows⟩ := ih
    refine ⟨s₂.now :: ps, ?_, List.forall_mem_cons.2 ⟨hstep.safe, hsafe⟩,
      List.pairwise_cons.2 ⟨fun p hp => ?_, hgrows⟩⟩
    · rw [states, hstep.before, List.cons_append, ← hstates]
      rfl
    · -- What the session had come to is the last of the states before.
      refine Parser.Grows.trans ?_ hstep.grows
      cases ps with
      | nil =>
        obtain rfl := List.mem_singleton.1 hp
        exact Leads.grows hleads
      | cons q ps =>
        obtain rfl : s₁.now = q := (List.cons.inj hstates).1
        rcases List.mem_cons.1 hp with rfl | hp
        · exact .refl _
        · exact (List.pairwise_cons.1 hgrows).1 p hp

/-- A session leads to another one, in the same layouts and levels. -/
structure Keeps (s s' : Session) : Prop where
  leads : s.Leads s'
  layouts : s'.now.layouts = s.now.layouts
  depth : s'.now.depth = s.now.depth

theorem Keeps.refl (s : Session) : s.Keeps s := ⟨.refl s, rfl, rfl⟩

theorem Keeps.trans (h : s.Keeps s₁) (h' : s₁.Keeps s') : s.Keeps s' :=
  ⟨h.leads.trans h'.leads, h'.layouts.trans h.layouts, h'.depth.trans h.depth⟩

end Session

end ResultHints
