import ResultHints.Proofs.Syntax.Record
import ResultHints.Proofs.Tree.Each
import ResultHints.Proofs.Tree.Outline

/-!
# Lines of rendered trees

A rendered tree is the lines of its nodes (`toList_renderTree`). The *entry* of a node is
what its line tells behind the indentation. No entry has a line break in it, whatever names
its node has, and none begins with a space; so the lines and their depths are found again,
and each node from its entry, whatever characters are written by their code points. Main
statement:

- `dumpBy_injective`: a tree can be told from its text.
-/

namespace ResultHints

/-- What the line of a node tells, behind the indentation. -/
def Shape.entry (s : Shape) : List Char := (s.kind.render ++ " " ++ s.span.render).toList

/-- The line of a node below `depth` others. -/
def Shape.line (depth : Nat) (s : Shape) : List Char :=
  List.replicate (2 * depth) ' ' ++ s.entry

theorem Shape.toList_renderLine (depth : Nat) (s : Shape) :
    (s.renderLine depth).toList = s.line depth ++ ['\n'] := by
  simp only [renderLine, line, entry, String.toList_append, String.toList_ofList, List.append_assoc]
  rfl

variable {hidden : Char → Bool}

/-- The entry of a node, if the characters in `hidden` are written by their code point. -/
def Shape.entryBy (hidden : Char → Bool) (s : Shape) : List Char :=
  (s.kind.renderBy hidden ++ " " ++ s.span.render).toList

/-- The line of a node below `depth` others, if the characters in `hidden` are written by their
    code point. -/
def Shape.lineBy (hidden : Char → Bool) (depth : Nat) (s : Shape) : List Char :=
  List.replicate (2 * depth) ' ' ++ s.entryBy hidden

theorem Shape.entryBy_isHidden (s : Shape) : s.entryBy isHidden = s.entry := by
  rw [entryBy, NodeKind.renderBy_isHidden, entry]

theorem Shape.lineBy_isHidden (depth : Nat) (s : Shape) :
    s.lineBy isHidden depth = s.line depth := by
  rw [lineBy, entryBy_isHidden, line]

/-! ## Entries have no line breaks -/

theorem newline_not_mem_toDigits (n : Nat) : '\n' ∉ Nat.toDigits 10 n :=
  not_mem_toDigits (by decide) (fun k => Nat.digitChar_ne '\n' (by decide)) n

theorem newline_not_mem_renderBool (b : Bool) : '\n' ∉ (renderBool b).toList := by
  cases b <;> decide

theorem WhenTest.newline_not_mem_render (t : WhenTest) : '\n' ∉ t.render.toList := by
  rcases t with _ | (_ | _) | (_ | _) <;> decide

theorem newline_not_mem_renderNameBy? (name : Option String) :
    '\n' ∉ (renderNameBy? hidden name).toList := by
  cases name with
  | none => simp [renderNameBy?]
  | some s => simp [renderNameBy?, newline_not_mem_quotedBy]

theorem isOutside_newline : IsOutside '\n' := by
  refine ⟨?_, ?_, ?_, ?_⟩ <;> intro op <;> cases op <;> decide

theorem FieldValue.newline_not_mem_render (v : FieldValue) : '\n' ∉ (v.render hidden).toList := by
  cases v with
  | text s => exact newline_not_mem_quotedBy hidden s
  | name s => exact newline_not_mem_renderNameBy? s
  | flag b => exact newline_not_mem_renderBool b
  | test t => exact t.newline_not_mem_render
  | binary op => exact isOutside_newline.1 op
  | leading op => exact isOutside_newline.2.1 op
  | trailing op => exact isOutside_newline.2.2.1 op
  | literal sort => exact isOutside_newline.2.2.2 sort

theorem newline_not_mem_intercalate {sep : List Char} {xs : List (List Char)} (hsep : '\n' ∉ sep)
    (hxs : ∀ x ∈ xs, '\n' ∉ x) : '\n' ∉ sep.intercalate xs := by
  induction xs with
  | nil => exact List.not_mem_nil
  | cons x xs ih =>
    obtain ⟨hx, hxs⟩ := List.forall_mem_cons.1 hxs
    by_cases hnil : xs = []
    · rwa [hnil, List.intercalate_singleton]
    · rw [List.intercalate_cons_of_ne_nil hnil, List.mem_append, List.mem_append]
      exact not_or.2 ⟨not_or.2 ⟨hx, hsep⟩, ih hxs⟩

theorem newline_not_mem_renderRecord {title : String} {fields : List (String × String)}
    (htitle : '\n' ∉ title.toList)
    (hfields : ∀ f ∈ fields, '\n' ∉ f.1.toList ∧ '\n' ∉ f.2.toList) :
    '\n' ∉ (renderRecord title fields).toList := by
  cases fields with
  | nil => exact htitle
  | cons f fields =>
    simp only [renderRecord, String.toList_append, String.toList_intercalate, List.mem_append,
      not_or]
    refine ⟨⟨⟨htitle, by decide⟩, newline_not_mem_intercalate (by decide) fun x hx => ?_⟩,
      by decide⟩
    simp only [List.map_map, List.mem_map, Function.comp_apply] at hx
    obtain ⟨g, hg, rfl⟩ := hx
    simp [hfields g hg]

theorem newline_not_mem_title (k : NodeKind) : '\n' ∉ k.fields.1.toList := by
  cases k with
  | jump j => cases j <;> simp [NodeKind.fields]
  | _ => simp [NodeKind.fields]

/-- A title begins with a capital letter. -/
theorem isUpper_head?_title (k : NodeKind) : k.fields.1.toList.head?.any Char.isUpper := by
  cases k with
  | jump j => cases j <;> simp [NodeKind.fields]
  | _ => simp [NodeKind.fields]

theorem newline_not_mem_record (k : NodeKind) : ∀ f ∈ k.record, '\n' ∉ f.1.toList := by
  cases k with
  | jump j => cases j <;> simp [NodeKind.record]
  | _ => simp [NodeKind.record]

theorem Shape.newline_not_mem_entryBy (s : Shape) : '\n' ∉ s.entryBy hidden := by
  have hkind : '\n' ∉ (s.kind.renderBy hidden).toList := by
    refine newline_not_mem_renderRecord (newline_not_mem_title _) (List.forall_mem_map.2 ?_)
    exact fun f hf => ⟨newline_not_mem_record _ f hf, f.2.newline_not_mem_render⟩
  simp [entryBy, Span.render, hkind, newline_not_mem_toDigits]

/-! ## Entries begin with their titles -/

theorem prefix_renderRecord (title : String) (fields : List (String × String)) :
    title.toList <+: (renderRecord title fields).toList := by
  cases fields with
  | nil => exact List.prefix_refl _
  | cons f fields =>
    simp only [renderRecord, String.toList_append, List.append_assoc]
    exact List.prefix_append _ _

theorem Shape.head?_entryBy_ne (s : Shape) : (s.entryBy hidden).head? ≠ some ' ' := by
  have hupper := isUpper_head?_title s.kind
  obtain ⟨rest, hrest⟩ : s.kind.fields.1.toList <+: (s.kind.renderBy hidden).toList :=
    prefix_renderRecord _ _
  rw [entryBy, String.toList_append, String.toList_append, ← hrest]
  cases htitle : s.kind.fields.1.toList with
  | nil =>
    rw [htitle] at hupper
    cases hupper
  | cons c cs =>
    rw [htitle] at hupper
    intro hspace
    cases hspace
    cases hupper

theorem Shape.head?_entry_ne (s : Shape) : s.entry.head? ≠ some ' ' :=
  s.entryBy_isHidden ▸ s.head?_entryBy_ne

/-! ## Nodes can be told from their lines -/

theorem Span.render_injective : Function.Injective render := by
  have hdot (n : Nat) : '.' ∉ Nat.toDigits 10 n :=
    not_mem_toDigits (by decide) (fun k => Nat.digitChar_ne '.' (by decide)) n
  rintro ⟨a, b⟩ ⟨a', b'⟩ h
  have hlist := congrArg String.toList h
  simp only [render, String.toList_append, Nat.toString_eq_repr, Nat.toList_repr,
    List.append_assoc] at hlist
  obtain ⟨hstart, hrest⟩ := append_cons_inj (hdot a) (hdot a') hlist
  have hstop := List.tail_eq_of_cons_eq hrest
  rw [toDigits_injective (by decide) (by decide) hstart,
    toDigits_injective (by decide) (by decide) hstop]

theorem Shape.entryBy_injective : Function.Injective (entryBy hidden) := by
  rintro ⟨k, r⟩ ⟨k', r'⟩ h
  simp only [entryBy, String.toList_append, List.append_assoc] at h
  obtain ⟨rfl, hspan⟩ := NodeKind.renderBy_append_inj h
  rw [Span.render_injective (String.toList_inj.1 hspan)]

/-- The depth and the node can be told from a line. -/
theorem Shape.lineBy_injective {m n : Nat} {s t : Shape}
    (h : s.lineBy hidden m = t.lineBy hidden n) : m = n ∧ s = t := by
  -- The indentation is all the spaces at the front.
  have hspaces (n : Nat) (s : Shape) :
      ((s.lineBy hidden n).takeWhile (· == ' ')).length = 2 * n := by
    have hentry : (s.entryBy hidden).takeWhile (· == ' ') = [] := by
      have hne : (s.entryBy hidden).head? ≠ some ' ' := s.head?_entryBy_ne
      cases hcs : s.entryBy hidden with
      | nil => rfl
      | cons c cs =>
        refine List.takeWhile_cons_of_neg fun hc => hne ?_
        rw [hcs, List.head?_cons, beq_iff_eq.1 hc]
    rw [lineBy, List.takeWhile_append_of_pos (by simp), hentry, List.append_nil,
      List.length_replicate]
  have hm := hspaces m s
  rw [h, hspaces n t] at hm
  obtain rfl : m = n := by omega
  exact ⟨rfl, entryBy_injective (List.append_cancel_left h)⟩

/-! ## Lines -/

theorem toList_renderAll (depth : Nat) (ts : List (Tree Shape)) :
    (renderAll depth ts).toList = ts.flatMap fun t => (renderFrom depth t).toList := by
  induction ts with
  | nil => rfl
  | cons t ts ih => rw [renderAll, String.toList_append, ih, List.flatMap_cons]

/-- Lines without line breaks, each ended by one, are found again by the breaks. -/
theorem splitOn_flatMap_newline {lines : List (List Char)} (h : ∀ l ∈ lines, '\n' ∉ l) :
    (lines.flatMap (· ++ ['\n'])).splitOn '\n' = lines ++ [[]] := by
  have hjoin : lines.flatMap (· ++ ['\n']) = ['\n'].intercalate (lines ++ [[]]) := by
    clear h
    induction lines with
    | nil => rfl
    | cons l ls ih =>
      rw [List.flatMap_cons, ih, List.cons_append, List.intercalate_cons_of_ne_nil (by simp)]
  rw [hjoin]
  refine List.splitOn_intercalate '\n' (fun l hl => ?_) (by simp)
  rcases List.mem_append.1 hl with hl | hl
  · exact h l hl
  · rw [List.mem_singleton.1 hl]
    exact List.not_mem_nil

/-- The text of a tree, if the characters in `hidden` are written by their code point. -/
def dumpBy (hidden : Char → Bool) (t : Tree Shape) : List Char :=
  (t.outline 0).flatMap fun x => x.2.lineBy hidden x.1 ++ ['\n']

/-- A rendered tree has a line for each label of its outline. -/
theorem toList_renderFrom (depth : Nat) (t : Tree Shape) : (renderFrom depth t).toList =
    (t.outline depth).flatMap fun x => x.2.line x.1 ++ ['\n'] := by
  induction t using Tree.ind generalizing depth with
  | node s ts ih =>
    rw [renderFrom, String.toList_append, Shape.toList_renderLine, toList_renderAll, Tree.outline,
      List.flatMap_cons, Tree.outlineAll_eq_flatMap, List.flatMap_assoc]
    exact congrArg _ (List.flatMap_congr fun t ht => ih t ht _)

/-- Rendered trees are such texts. -/
theorem toList_renderTree (t : Tree Shape) : (renderTree t).toList = dumpBy isHidden t := by
  simp only [renderTree, toList_renderFrom, dumpBy, Shape.lineBy_isHidden]

/-- The lines of a text are those of the labels, each with its depth. -/
theorem splitOn_dumpBy (t : Tree Shape) : (dumpBy hidden t).splitOn '\n' =
    ((t.outline 0).map fun x => x.2.lineBy hidden x.1) ++ [[]] := by
  rw [← splitOn_flatMap_newline, dumpBy, List.flatMap_map]
  refine List.forall_mem_map.2 fun x _ => ?_
  rw [Shape.lineBy, List.mem_append]
  exact not_or.2 ⟨by simp, x.2.newline_not_mem_entryBy⟩

/-- A tree can be told from its text. -/
theorem dumpBy_injective : Function.Injective (dumpBy hidden) := by
  intro t u h
  have hsame := (splitOn_dumpBy t).symm.trans
    ((congrArg (List.splitOn '\n') h).trans (splitOn_dumpBy u))
  refine Tree.outline_injective 0 (List.map_injective_iff.2 ?_ (List.append_cancel_right hsame))
  rintro ⟨m, s⟩ ⟨n, s'⟩ hline
  obtain ⟨rfl, rfl⟩ := Shape.lineBy_injective hline
  rfl

end ResultHints
