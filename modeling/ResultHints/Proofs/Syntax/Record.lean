import Mathlib.Data.List.Nodup
import ResultHints.Proofs.Text.Quoted
import ResultHints.Syntax.Render

/-!
# Kinds as records, read back

A kind can be told from its record. The title tells which sort of kind it is (`NodeKind.blank`),
so which fields there are and of what sort; and where a field ends can be told then
(`FieldValue.render_append_inj`). Main statement:

- `NodeKind.renderBy_append_inj`: of two records with something behind them that are written the
  same, the kinds are the same, and what is behind them.
-/

namespace ResultHints

variable {hidden : Char → Bool} {s t : List Char}

/-! ## Fields -/

/-- The value of a field of a kind. -/
inductive FieldValue
  | text (s : String)
  | name (s : Option String)
  | flag (b : Bool)
  | test (t : WhenTest)
  | binary (op : BinaryOperator)
  | leading (op : LeadingOperator)
  | trailing (op : TrailingOperator)
  | literal (sort : LiteralKind)
  deriving DecidableEq

/-- A name that may be missing, as it stands in a record, if the characters in `hidden` are written
    by their code point. -/
def renderNameBy? (hidden : Char → Bool) : Option String → String
  | none => "None"
  | some s => "Some(" ++ quotedBy hidden s ++ ")"

theorem renderNameBy?_isHidden : renderNameBy? isHidden = renderName? := by
  funext name
  cases name with
  | none => rfl
  | some s => rw [renderNameBy?, quotedBy_isHidden, renderName?]

namespace FieldValue

/-- A value as it stands in a record, if the characters in `hidden` are written by their code
    point. -/
def render (hidden : Char → Bool) : FieldValue → String
  | text s => quotedBy hidden s
  | name s => renderNameBy? hidden s
  | flag b => renderBool b
  | test t => t.render
  | binary op => op.title
  | leading op => op.title
  | trailing op => op.title
  | literal sort => sort.title

/-- A value of the same sort, always the same one. -/
def blank : FieldValue → FieldValue
  | text _ => text ""
  | name _ => name none
  | flag _ => flag false
  | test _ => test .expression
  | binary _ => binary .assign
  | leading _ => leading .minus
  | trailing _ => trailing .increment
  | literal _ => literal .integer

end FieldValue

/-! ## Where a value ends -/

/-- A word can be told up to a character that no word has in it. -/
theorem word_append_inj {α : Type} {f : α → String} {c : Char} (hf : Function.Injective f)
    (hc : ∀ a, c ∉ (f a).toList) {a b : α}
    (h : (f a).toList ++ c :: s = (f b).toList ++ c :: t) : a = b ∧ s = t := by
  obtain ⟨hword, rfl⟩ := append_cons_inj (hc a) (hc b) h
  exact ⟨hf (String.toList_inj.1 hword), rfl⟩

/-- What differs for all members of a list differs for all there are. -/
theorem injective_of_nodup_map {α β : Type} {f : α → β} (all : List α) (hall : ∀ a, a ∈ all)
    (h : (all.map f).Nodup) : Function.Injective f := fun a b hab =>
  List.inj_on_of_nodup_map h (hall a) (hall b) hab

theorem BinaryOperator.title_injective : Function.Injective title :=
  injective_of_nodup_map [assign, plusAssign, minusAssign, timesAssign, divAssign, remAssign, or,
    and, equal, notEqual, identical, notIdentical, less, greater, lessOrEqual, greaterOrEqual, in_,
    notIn, elvis, range, plus, minus, times, div, rem]
    (fun op => by cases op <;> decide) (by decide)

theorem LeadingOperator.title_injective : Function.Injective title :=
  injective_of_nodup_map [minus, plus, not, increment, decrement]
    (fun op => by cases op <;> decide) (by decide)

theorem TrailingOperator.title_injective : Function.Injective title :=
  injective_of_nodup_map [increment, decrement, notNull]
    (fun op => by cases op <;> decide) (by decide)

theorem LiteralKind.title_injective : Function.Injective title :=
  injective_of_nodup_map [integer, float, string, char, boolean, null]
    (fun sort => by cases sort <;> decide) (by decide)

/-- No test is written like the beginning of another one. -/
theorem WhenTest.render_append_inj {x y : WhenTest}
    (h : x.render.toList ++ s = y.render.toList ++ t) : x = y ∧ s = t := by
  have heq (x y : WhenTest) (hxy : x.render.toList <+: y.render.toList) : x = y := by
    rcases x with _ | (_ | _) | (_ | _) <;> rcases y with _ | (_ | _) | (_ | _) <;>
      first | rfl | exact absurd hxy (by decide)
  have hxy : x = y := by
    rcases List.prefix_or_prefix_of_prefix (List.prefix_append _ s) (h ▸ List.prefix_append _ t)
      with hxy | hyx
    · exact heq x y hxy
    · exact (heq y x hyx).symm
  subst hxy
  exact ⟨rfl, List.append_cancel_left h⟩

theorem renderNameBy?_append_inj {x y : Option String}
    (h : (renderNameBy? hidden x).toList ++ s = (renderNameBy? hidden y).toList ++ t) :
    x = y ∧ s = t := by
  cases x with
  | none =>
    cases y with
    | none => exact ⟨rfl, List.append_cancel_left h⟩
    | some y =>
      simp only [renderNameBy?, String.toList_append, List.append_assoc] at h
      exact absurd (List.head_eq_of_cons_eq h) (by decide)
  | some x =>
    cases y with
    | none =>
      simp only [renderNameBy?, String.toList_append, List.append_assoc] at h
      exact absurd (List.head_eq_of_cons_eq h) (by decide)
    | some y =>
      simp only [renderNameBy?, String.toList_append, List.append_assoc] at h
      obtain ⟨rfl, hrest⟩ := quotedBy_append_inj (List.append_cancel_left h)
      exact ⟨rfl, List.append_cancel_left hrest⟩

theorem renderBool_append_inj {x y : Bool}
    (h : (renderBool x).toList ++ s = (renderBool y).toList ++ t) : x = y ∧ s = t := by
  cases x <;> cases y <;> first
    | exact ⟨rfl, List.append_cancel_left h⟩
    | exact absurd (List.head_eq_of_cons_eq h) (by decide)

/-- Whether no operator and no sort of literal has a character in its title. -/
def IsOutside (c : Char) : Prop :=
  (∀ op : BinaryOperator, c ∉ op.title.toList) ∧ (∀ op : LeadingOperator, c ∉ op.title.toList) ∧
    (∀ op : TrailingOperator, c ∉ op.title.toList) ∧ ∀ sort : LiteralKind, c ∉ sort.title.toList

theorem isOutside_space : IsOutside ' ' := by
  refine ⟨?_, ?_, ?_, ?_⟩ <;> intro op <;> cases op <;> decide

theorem isOutside_comma : IsOutside ',' := by
  refine ⟨?_, ?_, ?_, ?_⟩ <;> intro op <;> cases op <;> decide

/-- Of two values of one sort it can be told what they are and where they end. -/
theorem FieldValue.render_append_inj {c : Char} (hc : IsOutside c) {v w : FieldValue}
    (hsort : v.blank = w.blank)
    (h : (v.render hidden).toList ++ c :: s = (w.render hidden).toList ++ c :: t) :
    v = w ∧ s = t := by
  cases v with
  | text x =>
    cases w with
    | text y => exact (quotedBy_append_inj h).imp (congrArg _) List.tail_eq_of_cons_eq
    | _ => cases hsort
  | name x =>
    cases w with
    | name y => exact (renderNameBy?_append_inj h).imp (congrArg _) List.tail_eq_of_cons_eq
    | _ => cases hsort
  | flag x =>
    cases w with
    | flag y => exact (renderBool_append_inj h).imp (congrArg _) List.tail_eq_of_cons_eq
    | _ => cases hsort
  | test x =>
    cases w with
    | test y => exact (WhenTest.render_append_inj h).imp (congrArg _) List.tail_eq_of_cons_eq
    | _ => cases hsort
  | binary x =>
    cases w with
    | binary y =>
      exact (word_append_inj BinaryOperator.title_injective hc.1 h).imp (congrArg _) id
    | _ => cases hsort
  | leading x =>
    cases w with
    | leading y =>
      exact (word_append_inj LeadingOperator.title_injective hc.2.1 h).imp (congrArg _) id
    | _ => cases hsort
  | trailing x =>
    cases w with
    | trailing y =>
      exact (word_append_inj TrailingOperator.title_injective hc.2.2.1 h).imp (congrArg _) id
    | _ => cases hsort
  | literal x =>
    cases w with
    | literal y =>
      exact (word_append_inj LiteralKind.title_injective hc.2.2.2 h).imp (congrArg _) id
    | _ => cases hsort

/-! ## Records -/

namespace NodeKind

/-- The fields of a kind. -/
def record : NodeKind → List (String × FieldValue)
  | packageDirective path | importDirective path => [("path", .text path)]
  | function name | parameter name | annotationEntry name | nameReference name =>
    [("name", .text name)]
  | property name isMutable => [("name", .text name), ("mutable", .flag isMutable)]
  | typeReference text => [("text", .text text)]
  | labeled label => [("label", .text label)]
  | argument name => [("name", .name name)]
  | qualified isSafe | cast isSafe => [("safe", .flag isSafe)]
  | whenEntry isElse => [("is_else", .flag isElse)]
  | whenCondition test => [("test", .test test)]
  | forLoop name => [("variable", .text name)]
  | binary op => [("op", .binary op)]
  | leading op => [("op", .leading op)]
  | trailing op => [("op", .trailing op)]
  | typeTest negated => [("negated", .flag negated)]
  | literal sort => [("kind", .literal sort)]
  | this label | jump (.return_ label) | jump (.break_ label) | jump (.continue_ label) =>
    [("label", .name label)]
  | _ => []

/-- A kind as a record, if the characters in `hidden` are written by their code point. -/
def renderBy (hidden : Char → Bool) (k : NodeKind) : String :=
  renderRecord k.fields.1 (k.record.map (Prod.map id (FieldValue.render hidden)))

theorem map_record_isHidden (k : NodeKind) :
    k.record.map (Prod.map id (FieldValue.render isHidden)) = k.fields.2 := by
  cases k with
  | jump sort => cases sort <;> simp [record, fields, FieldValue.render, renderNameBy?_isHidden]
  | _ => simp [record, fields, FieldValue.render, quotedBy_isHidden, renderNameBy?_isHidden]

theorem renderBy_isHidden (k : NodeKind) : k.renderBy isHidden = k.render := by
  rw [renderBy, map_record_isHidden, render]

/-- The kind of the same sort with other fields, if they are of its sort. -/
def refill : NodeKind → List (String × FieldValue) → NodeKind
  | packageDirective _, [(_, .text path)] => packageDirective path
  | importDirective _, [(_, .text path)] => importDirective path
  | function _, [(_, .text name)] => function name
  | property _ _, [(_, .text name), (_, .flag isMutable)] => property name isMutable
  | parameter _, [(_, .text name)] => parameter name
  | typeReference _, [(_, .text text)] => typeReference text
  | labeled _, [(_, .text label)] => labeled label
  | annotationEntry _, [(_, .text name)] => annotationEntry name
  | argument _, [(_, .name name)] => argument name
  | nameReference _, [(_, .text name)] => nameReference name
  | qualified _, [(_, .flag isSafe)] => qualified isSafe
  | whenEntry _, [(_, .flag isElse)] => whenEntry isElse
  | whenCondition _, [(_, .test test)] => whenCondition test
  | forLoop _, [(_, .text name)] => forLoop name
  | binary _, [(_, .binary op)] => binary op
  | leading _, [(_, .leading op)] => leading op
  | trailing _, [(_, .trailing op)] => trailing op
  | typeTest _, [(_, .flag negated)] => typeTest negated
  | cast _, [(_, .flag isSafe)] => cast isSafe
  | literal _, [(_, .literal sort)] => literal sort
  | this _, [(_, .name label)] => this label
  | jump (.return_ _), [(_, .name label)] => jump (.return_ label)
  | jump (.break_ _), [(_, .name label)] => jump (.break_ label)
  | jump (.continue_ _), [(_, .name label)] => jump (.continue_ label)
  | k, _ => k

/-- The kind of the same sort that has blank fields. -/
def blank (k : NodeKind) : NodeKind := k.refill (k.record.map (Prod.map id FieldValue.blank))

theorem refill_record (k : NodeKind) : k.blank.refill k.record = k := by
  cases k with
  | jump sort => cases sort <;> rfl
  | _ => rfl

theorem record_blank (k : NodeKind) :
    k.blank.record = k.record.map (Prod.map id FieldValue.blank) := by
  cases k with
  | jump sort => cases sort <;> rfl
  | _ => rfl

theorem title_blank (k : NodeKind) : k.blank.fields.1 = k.fields.1 := by
  cases k with
  | jump sort => cases sort <;> rfl
  | _ => rfl

/-- The kinds that have blank fields. -/
def blanks : List NodeKind :=
  [file, packageDirective "", importDirective "", function "", property "" false, parameter "",
    typeReference "", block, lambda, functionLiteral, labeled "", annotated, annotationEntry "",
    call, argumentList, argument none, lambdaArgument, nameReference "", qualified false,
    arrayAccess, ifElse, when_, whenEntry false, whenCondition .expression, whenSubject, condition,
    thenBranch, elseBranch, whileLoop, forLoop "", loopRange, loopBody, binary .assign,
    leading .minus, trailing .increment, typeTest false, cast false, parenthesized,
    literal .integer, this none, jump (.return_ none), jump .throw_, jump (.break_ none),
    jump (.continue_ none)]

theorem blank_mem_blanks (k : NodeKind) : k.blank ∈ blanks := by
  cases k with
  | jump sort => cases sort <;> simp [blank, refill, record, blanks, FieldValue.blank]
  | _ => simp [blank, refill, record, blanks, FieldValue.blank]

/-- The title tells the sort of a kind. -/
theorem blank_eq_of_title {k l : NodeKind} (h : k.fields.1 = l.fields.1) : k.blank = l.blank := by
  have hnd : (blanks.map fun k => k.fields.1).Nodup := by decide +kernel
  refine List.inj_on_of_nodup_map hnd k.blank_mem_blanks l.blank_mem_blanks ?_
  rw [title_blank, title_blank, h]

theorem space_not_mem_title (k : NodeKind) : ' ' ∉ k.fields.1.toList := by
  cases k with
  | jump j => cases j <;> simp [fields]
  | _ => simp [fields]

/-- What stands between the braces of a record. -/
def writtenFields (hidden : Char → Bool) (fs : List (String × FieldValue)) : List Char :=
  [',', ' '].intercalate (fs.map fun f =>
    f.1.toList ++ ':' :: ' ' :: (f.2.render hidden).toList)

theorem toList_renderBy_of_nil {k : NodeKind} (h : k.record = []) :
    (k.renderBy hidden).toList = k.fields.1.toList := by
  rw [renderBy, h, List.map_nil, renderRecord]

theorem toList_renderBy_of_ne {k : NodeKind} (h : k.record ≠ []) :
    (k.renderBy hidden).toList =
      k.fields.1.toList ++ ' ' :: '{' :: ' ' :: (writtenFields hidden k.record ++ [' ', '}']) := by
  have hfield : String.toList ∘ (fun x : String × String => x.1 ++ ": " ++ x.2) ∘
      Prod.map id (FieldValue.render hidden) =
        fun f => f.1.toList ++ ':' :: ' ' :: (f.2.render hidden).toList := by
    funext f
    simp
  rw [renderBy, renderRecord]
  · simp only [String.toList_append, String.toList_intercalate, List.map_map, hfield,
      List.append_assoc]
    rfl
  · exact fun hnil => h (List.map_eq_nil_iff.1 hnil)

/-- The fields of a record, behind the brace, with anything behind them. -/
theorem writtenFields_append_inj {fs gs : List (String × FieldValue)} (hne : fs ≠ [])
    (hsorts : fs.map (Prod.map id FieldValue.blank) = gs.map (Prod.map id FieldValue.blank))
    (h : writtenFields hidden fs ++ ' ' :: s = writtenFields hidden gs ++ ' ' :: t) :
    fs = gs ∧ s = t := by
  induction fs generalizing gs with
  | nil => exact absurd rfl hne
  | cons f fs ih =>
    obtain ⟨g, gs, rfl⟩ : ∃ g gs', gs = g :: gs' := by
      cases gs with
      | nil => cases hsorts
      | cons g gs => exact ⟨g, gs, rfl⟩
    obtain ⟨x, v⟩ := f
    obtain ⟨y, w⟩ := g
    rw [List.map_cons, List.map_cons, List.cons.injEq] at hsorts
    obtain ⟨hfirst, hsorts⟩ := hsorts
    obtain rfl : x = y := congrArg Prod.fst hfirst
    have hsort : v.blank = w.blank := congrArg Prod.snd hfirst
    cases fs with
    | nil =>
      obtain rfl : gs = [] := List.map_eq_nil_iff.1 hsorts.symm
      simp only [writtenFields, List.map_cons, List.map_nil, List.intercalate_singleton,
        List.append_assoc, List.cons_append] at h
      have hvalue := List.append_cancel_left h
      simp only [List.cons.injEq, true_and] at hvalue
      obtain ⟨rfl, rfl⟩ := FieldValue.render_append_inj isOutside_space hsort hvalue
      exact ⟨rfl, rfl⟩
    | cons f' fs =>
      obtain ⟨g', gs, rfl⟩ : ∃ g gs', gs = g :: gs' := by
        cases gs with
        | nil => cases hsorts
        | cons g gs => exact ⟨g, gs, rfl⟩
      simp only [writtenFields, List.map_cons, List.intercalate_cons_cons, List.append_assoc,
        List.cons_append, List.nil_append] at h
      have hvalue := List.append_cancel_left h
      simp only [List.cons.injEq, true_and] at hvalue
      obtain ⟨rfl, hrest⟩ := FieldValue.render_append_inj isOutside_comma hsort hvalue
      obtain ⟨hfields, rfl⟩ := ih (List.cons_ne_nil _ _) hsorts (List.tail_eq_of_cons_eq hrest)
      rw [hfields]
      exact ⟨rfl, rfl⟩

/-- A kind can be told from its record, with anything behind it. -/
theorem renderBy_append_inj {k l : NodeKind}
    (h : (k.renderBy hidden).toList ++ ' ' :: s = (l.renderBy hidden).toList ++ ' ' :: t) :
    k = l ∧ s = t := by
  have htitled (k : NodeKind) (s : List Char) :
      ∃ u, (k.renderBy hidden).toList ++ ' ' :: s = k.fields.1.toList ++ ' ' :: u := by
    by_cases hk : k.record = []
    · exact ⟨s, by rw [toList_renderBy_of_nil hk]⟩
    · exact ⟨_, by rw [toList_renderBy_of_ne hk, List.append_assoc, List.cons_append]⟩
  -- The titles are the same, so there are the same fields, of the same sorts.
  obtain ⟨u, hu⟩ := htitled k s
  obtain ⟨v, hv⟩ := htitled l t
  have htitle := (append_cons_inj k.space_not_mem_title l.space_not_mem_title
    (hu.symm.trans (h.trans hv))).1
  have hblank := blank_eq_of_title (String.toList_inj.1 htitle)
  have hsorts : k.record.map (Prod.map id FieldValue.blank) =
      l.record.map (Prod.map id FieldValue.blank) := by
    rw [← record_blank, ← record_blank, hblank]
  obtain ⟨hrecord, rfl⟩ : k.record = l.record ∧ s = t := by
    by_cases hk : k.record = []
    · have hl : l.record = [] := by
        rw [hk, List.map_nil] at hsorts
        exact List.map_eq_nil_iff.1 hsorts.symm
      rw [toList_renderBy_of_nil hk, toList_renderBy_of_nil hl, htitle] at h
      exact ⟨hk.trans hl.symm, List.tail_eq_of_cons_eq (List.append_cancel_left h)⟩
    · have hl : l.record ≠ [] := by
        rintro hl
        rw [hl, List.map_nil] at hsorts
        exact hk (List.map_eq_nil_iff.1 hsorts)
      simp only [toList_renderBy_of_ne hk, toList_renderBy_of_ne hl, htitle, List.append_assoc,
        List.cons_append, List.nil_append] at h
      have hfields := List.append_cancel_left h
      simp only [List.cons.injEq, true_and] at hfields
      exact (writtenFields_append_inj hk hsorts hfields).imp id fun hrest => by
        simpa using hrest
  refine ⟨?_, rfl⟩
  rw [← k.refill_record, ← l.refill_record, hblank, hrecord]

end NodeKind

end ResultHints
