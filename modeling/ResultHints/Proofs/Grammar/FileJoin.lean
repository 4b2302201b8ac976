import ResultHints.Proofs.Grammar.Carry.Statement
import ResultHints.Proofs.Grammar.First

/-!
# The statements of two texts

A file in a longer text: its directives and statements are read there as well, and then the
statements that follow it (`file_cursor`).
-/

namespace ResultHints

open Reader ResultHints.Frame

variable {f : Frame} {s s₁ s' a b y z : Cursor} {u : Fragment} {us vs : List Fragment}

/-! ## Directives -/

theorem pathFrom_cursor {limit limit' : Nat} {path : String} (hlimit : s.size ≤ limit)
    (hlimit' : limit ≤ limit') (h : pathFrom limit s = .ok path s') :
    pathFrom limit' (f.cursor s) = .ok path (f.cursor s') := by
  induction limit generalizing limit' s path with
  | zero =>
    obtain ⟨rfl, rfl⟩ := pure_eq_ok.1 h
    have hrest := Cursor.rest_eq_nil_of_size hlimit
    cases limit' with
    | zero => rfl
    | succ limit' =>
      have hdot : accepts .dot s = .ok false s := by
        simp only [accepts, bind_eq_ok]
        exact ⟨_, _, accept_of_kind?_ne (by simp [Cursor.kind?_of_nil hrest]), rfl⟩
      simp only [pathFrom, bind_eq_ok]
      exact ⟨_, _, accepts_cursor hdot fun _ => rfl, rfl⟩
  | succ limit ih =>
    obtain ⟨limit', rfl⟩ : ∃ l, limit' = l + 1 := ⟨limit' - 1, by omega⟩
    simp only [pathFrom, bind_eq_ok] at h ⊢
    obtain ⟨b, s₁, hdot, h⟩ := h
    refine ⟨_, _, accepts_cursor hdot fun _ => rfl, ?_⟩
    obtain ⟨rfl, rfl⟩ | ⟨rfl, t, ht, -⟩ := skips_of_accepts hdot
    · obtain ⟨rfl, rfl⟩ := pure_eq_ok.1 h
      rfl
    · simp only [if_true, bind_eq_ok] at h ⊢
      obtain ⟨b, s₂, hstar, h⟩ := h
      refine ⟨_, _, accepts_cursor hstar fun _ => rfl, ?_⟩
      obtain ⟨rfl, rfl⟩ | ⟨rfl, -⟩ := skips_of_accepts hstar
      · simp only [Bool.false_eq_true, if_false, bind_eq_ok, pure_eq_ok] at h ⊢
        obtain ⟨t', s₃, hname, rest, s₄, hpath, rfl, rfl⟩ := h
        have hlt := ht.length_lt
        have hlt' := (takes_of_identifier hname).1.length_lt
        exact ⟨_, _, expect_cursor hname, _, _, ih (by simp only [Cursor.size] at hlimit ⊢; omega)
          (Nat.le_of_succ_le_succ hlimit') hpath, rfl, rfl⟩
      · obtain ⟨rfl, rfl⟩ := pure_eq_ok.1 h
        rfl

theorem directive_cursor (h : directive s = .ok u s') :
    directive (f.cursor s) = .ok (f.fragment u) (f.cursor s') := by
  simp only [directive, bind_eq_ok, get_eq_ok] at h ⊢
  obtain ⟨first, s₁, hfirst, t, s₂, ht, _, _, ⟨rfl, rfl⟩, path, s₃, hpath, h⟩ := h
  obtain ⟨rfl, rfl⟩ := eq_of_close h
  exact ⟨_, _, next_cursor hfirst, _, _, expect_cursor ht, _, _, ⟨rfl, rfl⟩, _, _,
    pathFrom_cursor (Nat.le_refl _) (size_le_cursor s₂) hpath, close_cursor first.start rfl⟩

/-! ## Semicolons -/

theorem exists_of_semicolons (s : Cursor) : ∃ s', semicolons s = .ok () s' := ⟨_, rfl⟩

theorem rest_of_semicolons (h : semicolons s = .ok () s') :
    s'.rest = s.rest.dropWhile fun t => t.kind == .symbol .semicolon := by
  refine of_semicolons (P := fun s => s'.rest = s.rest.dropWhile fun t =>
    t.kind == .symbol .semicolon) ?_ h ?_
  · rintro _ _ ⟨t, ⟨source, t, ts, n, i⟩, hk⟩ h
    rwa [List.dropWhile_cons_of_pos (by simpa using hk)]
  · have hno := not_isAt_of_semicolons h
    obtain ⟨source, _ | ⟨t, ts⟩, n, i⟩ := s'
    · rfl
    · rw [List.dropWhile_cons_of_neg (by simpa [Cursor.isAt, Cursor.kind?] using hno)]

/-- Where semicolons are passed in the text, no others are passed in the longer one. -/
theorem semicolons_cursor_eq (h : semicolons s = .ok () s₁) :
    semicolons (f.cursor s) = semicolons (f.cursor s₁) :=
  of_semicolons (P := fun s => semicolons (f.cursor s) = semicolons (f.cursor s₁))
    (fun _ _ hs h => (semicolons_of_skips (skips_cursor hs)).trans h) h rfl

/-- After the text and the semicolons behind it, there is nothing or what may stand behind a
    statement. -/
theorem follows_of_semicolons_cursor (hrest : s.rest = [])
    (h : semicolons (f.cursor s) = .ok () s') : ∀ k ∈ s'.kind?, k.follows := by
  intro k hk
  obtain ⟨t, ht, rfl⟩ := Option.map_eq_some_iff.1 hk
  rw [rest_of_semicolons h, rest_cursor_nil hrest] at ht
  exact f.follows t ht

/-! ## Rows -/

section Rows

variable {p : Phrase} {n : Nat} {item : Reader Fragment} {stop : Option TokenKind → Bool}
  {closing : Option TokenKind} {limit : Nat}

/-- Rows begin behind any semicolons. -/
theorem rowsUpTo_congr (h : semicolons s = semicolons s') :
    rowsUpTo stop closing item (limit + 1) s = rowsUpTo stop closing item (limit + 1) s' := by
  rw [rowsUpTo]
  change EStateM.bind semicolons _ s = EStateM.bind semicolons _ s'
  unfold EStateM.bind
  rw [h]

variable (hreads : ∀ s u s', item s = .ok u s' → Reads n p s [u] s')

include hreads

/-- As every item takes a lexeme, the limit does not matter if it is above their number. -/
theorem rowsUpTo_limit {limit' : Nat} (hlimit : s.size < limit) (hlimit' : s.size < limit')
    (h : rowsUpTo stop closing item limit s = .ok us s') :
    rowsUpTo stop closing item limit' s = .ok us s' := by
  induction limit generalizing limit' s us with
  | zero => exact absurd hlimit (Nat.not_lt_zero _)
  | succ limit ih =>
    obtain ⟨limit', rfl⟩ : ∃ l, limit' = l + 1 := ⟨limit' - 1, by omega⟩
    simp only [rowsUpTo, bind_eq_ok, get_eq_ok] at h ⊢
    obtain ⟨_, s₁, hsemi, _, _, ⟨rfl, rfl⟩, h⟩ := h
    refine ⟨_, _, hsemi, _, _, ⟨rfl, rfl⟩, ?_⟩
    split at h
    · rename_i hstop
      rwa [if_pos hstop]
    · rename_i hstop
      rw [if_neg hstop]
      simp only [bind_eq_ok, pure_eq_ok] at h ⊢
      obtain ⟨u, s₂, hu, _, s₃, hend, us, s₄, hus, rfl, rfl⟩ := h
      obtain rfl := eq_of_rowEnd hend
      have hsize := size_lt_of_row hsemi (hreads _ _ _ hu)
      exact ⟨_, _, hu, _, _, hend, _, _, ih (by omega) (by omega) hus, rfl, rfl⟩

/-- Rows end where they are told to, behind any semicolons. -/
theorem end_of_rowsUpTo (hlimit : s.size < limit)
    (h : rowsUpTo stop closing item limit s = .ok us s') :
    ¬s'.isAt (.symbol .semicolon) ∧ stop s'.kind? := by
  induction limit generalizing s us with
  | zero => exact absurd hlimit (Nat.not_lt_zero _)
  | succ limit ih =>
    simp only [rowsUpTo, bind_eq_ok, get_eq_ok] at h
    obtain ⟨_, s₁, hsemi, _, _, ⟨rfl, rfl⟩, h⟩ := h
    split at h
    · rename_i hstop
      obtain ⟨-, rfl⟩ := pure_eq_ok.1 h
      exact ⟨not_isAt_of_semicolons hsemi, hstop⟩
    · simp only [bind_eq_ok, pure_eq_ok] at h
      obtain ⟨u, s₂, hu, _, s₃, hend, us, s₄, hus, rfl, rfl⟩ := h
      obtain rfl := eq_of_rowEnd hend
      have hsize := size_lt_of_row hsemi (hreads _ _ _ hu)
      exact ih (by omega) hus

/-- Rows begin behind any semicolons. -/
theorem rows_of_semicolons_eq (hsemi : semicolons s = semicolons s')
    (h : rows stop closing item s = .ok us z) : rows stop closing item s' = .ok us z := by
  rw [rows_apply] at h ⊢
  have hmax : rowsUpTo stop closing item (max s.size s'.size + 1) s = .ok us z :=
    rowsUpTo_limit hreads (Nat.lt_succ_self _) (Nat.lt_succ_of_le (Nat.le_max_left _ _)) h
  rw [rowsUpTo_congr hsemi] at hmax
  exact rowsUpTo_limit hreads (Nat.lt_succ_of_le (Nat.le_max_right _ _)) (Nat.lt_succ_self _) hmax

omit hreads in
/-- Rows that end before what may stand behind a statement end where the text does, or behind the semicolons
    after it. -/
theorem rows_cursor_end (stop : Option TokenKind → Bool) (hb : ¬b.isAt (.symbol .semicolon))
    (hstop : stop b.kind?)
    (hfollows : ∀ k : Option TokenKind, (∀ k' ∈ k, k'.follows) → stop k) :
    ∃ b', rows stop closing item (f.cursor b) = .ok [] b' ∧
      semicolons b' = semicolons (f.cursor b) := by
  obtain ⟨b', hb'⟩ := exists_of_semicolons (f.cursor b)
  have hstop' : stop b'.kind? := by
    by_cases hrest : b.rest = []
    · exact hfollows _ (follows_of_semicolons_cursor hrest hb')
    · have hno : ¬(f.cursor b).isAt (.symbol .semicolon) := by rwa [isAt_cursor hrest]
      rw [semicolons_of_not_isAt hno] at hb'
      cases hb'
      rwa [kind?_cursor hrest]
  refine ⟨b', ?_, (semicolons_of_not_isAt (not_isAt_of_semicolons hb')).trans hb'.symm⟩
  simp only [rows_apply, rowsUpTo, bind_eq_ok, get_eq_ok]
  refine ⟨_, _, hb', _, _, ⟨rfl, rfl⟩, ?_⟩
  rw [if_pos hstop']
  rfl

variable {item' : Reader Fragment} {n' : Nat}
  (hreads' : ∀ s u s', item' s = .ok u s' → Reads n' p s [u] s')

include hreads'

theorem rowsUpTo_cursor_append {limit' : Nat} (hlimit : s.size < limit)
    (hlimit' : (f.cursor y).size < limit')
    (h : rowsUpTo stop none item limit s = .ok us y)
    (hvs : rowsUpTo stop none item' limit' (f.cursor y) = .ok vs z)
    (hitem : ∀ s u s' limit vs, u ∈ us → item s = .ok u s' → rowEnd none s' = .ok () s' →
      rowsUpTo stop none item limit s' = .ok vs y →
      item' (f.cursor s) = .ok (f.fragment u) (f.cursor s')) :
    rowsUpTo stop none item' (limit + limit') (f.cursor s) = .ok (us.map f.fragment ++ vs) z := by
  induction limit generalizing s us with
  | zero => exact absurd hlimit (Nat.not_lt_zero _)
  | succ limit ih =>
    rw [Nat.add_right_comm]
    have hall := h
    simp only [rowsUpTo, bind_eq_ok, get_eq_ok] at h
    obtain ⟨_, s₁, hsemi, _, _, ⟨rfl, rfl⟩, h⟩ := h
    split at h
    · obtain ⟨rfl, rfl⟩ := pure_eq_ok.1 h
      rw [rowsUpTo_congr (semicolons_cursor_eq hsemi)]
      exact rowsUpTo_limit hreads' hlimit' (by omega) hvs
    · rename_i hstop
      simp only [bind_eq_ok, pure_eq_ok] at h
      obtain ⟨u, s₂, hu, _, s₃, hend, us, s₄, hus, rfl, rfl⟩ := h
      obtain rfl := eq_of_rowEnd hend
      have hlt := (took_of_reads (hreads _ _ _ hu)).length_le
      rw [List.length_singleton] at hlt
      have hrest : s₁.rest ≠ [] := List.length_pos_iff.1 (by omega)
      have hsize := size_lt_of_row hsemi (hreads _ _ _ hu)
      have hus' := ih (s := s₃) (by omega) hus
        fun s v s' l vs hv => hitem s v s' l vs (List.mem_cons_of_mem _ hv)
      simp only [rowsUpTo, bind_eq_ok, get_eq_ok]
      refine ⟨_, _, semicolons_cursor hsemi hrest, _, _, ⟨rfl, rfl⟩, ?_⟩
      rw [kind?_cursor hrest, if_neg hstop]
      simp only [bind_eq_ok, pure_eq_ok]
      exact ⟨_, _, hitem _ _ _ _ _ List.mem_cons_self hu hend hus, _, _, rowEnd_cursor hend, _, _,
        hus', rfl, rfl⟩

/-- The rows of the text are read in the longer text as well, and then those after it. -/
theorem rows_cursor_append (h : rows stop none item s = .ok us y)
    (hvs : rows stop none item' (f.cursor y) = .ok vs z)
    (hitem : ∀ s u s' limit vs, u ∈ us → item s = .ok u s' → rowEnd none s' = .ok () s' →
      rowsUpTo stop none item limit s' = .ok vs y →
      item' (f.cursor s) = .ok (f.fragment u) (f.cursor s')) :
    rows stop none item' (f.cursor s) = .ok (us.map f.fragment ++ vs) z := by
  rw [rows_apply] at h hvs ⊢
  have hlimit : (f.cursor s).size < s.size + 1 + ((f.cursor y).size + 1) := by
    simp only [cursor, Cursor.size, List.length_append, List.length_map]
    omega
  exact rowsUpTo_limit hreads' hlimit (Nat.lt_succ_self _)
    (rowsUpTo_cursor_append hreads hreads' (Nat.lt_succ_self _) (Nat.lt_succ_self _) h hvs hitem)

end Rows

/-! ## Files -/

theorem packageDirective_cursor (h : packageDirective s = .ok us a) :
    ∃ a', packageDirective (f.cursor s) = .ok (us.map f.fragment) a' ∧
      semicolons a' = semicolons (f.cursor a) := by
  simp only [packageDirective, bind_eq_ok, get_eq_ok] at h ⊢
  obtain ⟨_, s₁, hsemi, _, _, ⟨rfl, rfl⟩, h⟩ := h
  by_cases hrest : s₁.rest = []
  · -- The semicolons after the text are passed as well.
    rw [if_neg (by simp [Cursor.isAt_of_nil hrest])] at h
    obtain ⟨rfl, rfl⟩ := pure_eq_ok.1 h
    obtain ⟨a', ha'⟩ := exists_of_semicolons (f.cursor s₁)
    have hfollows := follows_of_semicolons_cursor hrest ha'
    refine ⟨a', ⟨_, _, (semicolons_cursor_eq hsemi).trans ha', _, _, ⟨rfl, rfl⟩, ?_⟩,
      (semicolons_of_not_isAt (not_isAt_of_semicolons ha')).trans ha'.symm⟩
    rw [if_neg]
    · rfl
    · intro hat
      cases hfollows _ (beq_iff_eq.1 hat)
  · have hsemi' := semicolons_cursor (f := f) hsemi hrest
    split at h
    · rename_i hat
      simp only [bind_eq_ok, pure_eq_ok] at h
      obtain ⟨u, s₂, hu, _, s₃, hend, rfl, rfl⟩ := h
      refine ⟨f.cursor s₃, ⟨_, _, hsemi', _, _, ⟨rfl, rfl⟩, ?_⟩, rfl⟩
      rw [isAt_cursor hrest, if_pos hat]
      simp only [bind_eq_ok, pure_eq_ok]
      exact ⟨_, _, directive_cursor hu, _, _, rowEnd_cursor hend, rfl, rfl⟩
    · rename_i hat
      obtain ⟨rfl, rfl⟩ := pure_eq_ok.1 h
      refine ⟨f.cursor s₁, ⟨_, _, hsemi', _, _, ⟨rfl, rfl⟩, ?_⟩, rfl⟩
      rw [isAt_cursor hrest, if_neg hat]
      rfl

theorem imports_cursor {a' : Cursor} (ha' : semicolons a' = semicolons (f.cursor a))
    (h : rows (· != some (.keyword .import_)) none directive a = .ok us b) :
    ∃ b', rows (· != some (.keyword .import_)) none directive a' = .ok (us.map f.fragment) b' ∧
      semicolons b' = semicolons (f.cursor b) := by
  have hreads : ∀ s u s', directive s = .ok u s' → Reads 0 .directive s [u] s' :=
    fun _ _ _ => reads_directive
  have hall := h
  rw [rows_apply] at h
  obtain ⟨hb, hstop⟩ := end_of_rowsUpTo hreads (Nat.lt_succ_self _) h
  obtain ⟨b', hend, hb'⟩ := rows_cursor_end (f := f) (· != some (.keyword .import_)) hb hstop
    fun k hk => by
      rw [bne_iff_ne]
      rintro rfl
      cases hk _ rfl
  have hrows := rows_cursor_append hreads hreads hall hend fun _ _ _ _ _ _ hu _ _ => directive_cursor hu
  rw [List.append_nil] at hrows
  exact ⟨b', rows_of_semicolons_eq hreads ha'.symm hrows, hb'⟩

/-! ## Statements -/

/-- Behind any semicolons, the first statement begins. -/
theorem begins_of_rows {n : Nat} (h : Reads n (.rows .statement) s us y) (hy : y.rest = []) :
    ∀ t ∈ (s.rest.dropWhile fun t => t.kind == .symbol .semicolon).head?, t.kind.begins := by
  generalize hp : Phrase.rows .statement = p at h
  induction h with
  | noRow =>
    rw [hy]
    simp
  | semicolon hs _ ih =>
    obtain ⟨t, ⟨source, t, ts, stop, i⟩, hk⟩ := hs
    rw [List.dropWhile_cons_of_pos (by simpa using hk)]
    exact ih hy hp
  | row _ hu _ _ _ =>
    cases hp
    obtain ⟨t, ts, hrest, hk⟩ := begins_of_reads hu rfl
    rw [hrest, List.dropWhile_cons_of_neg]
    · rintro _ ⟨⟩
      exact hk
    · intro hsemi
      rw [beq_iff_eq.1 hsemi] at hk
      cases hk
  | _ => cases hp

theorem kinds_ne_dot_of_rows {n : Nat} (h : Reads n (.rows .statement) s us y)
    (hy : y.rest = []) : kinds s.rest ≠ [.symbol .dot] := by
  have hbegins := begins_of_rows h hy
  intro hdot
  obtain ⟨t, hrest, hk⟩ := List.map_eq_singleton_iff.1 hdot
  rw [hrest, List.dropWhile_cons_of_neg (by simp [hk])] at hbegins
  have ht := hbegins t rfl
  rw [hk] at ht
  cases ht

section Statements

variable {inner inner' : Inner} {n : Nat}

theorem rest_of_statements (hn : inner.Sound n) (h : statements inner none s = .ok us y) :
    y.rest = [] := by
  simp only [statements, rows, bind_eq_ok, get_eq_ok] at h
  obtain ⟨_, _, ⟨rfl, rfl⟩, h⟩ := h
  have hstop := (end_of_rowsUpTo (fun _ _ _ => hn.reads_statement) (Nat.lt_succ_self _) h).2
  simpa [Cursor.kind?] using hstop

/-- The statements of the text are read in the longer text as well, and then those after it. -/
theorem statements_cursor_append (hn : inner.Carries f n inner')
    (h : statements inner none s = .ok us y) (hvs : statements inner' none (f.cursor y) = .ok vs z)
    (hstop : f.stop ≤ y.lastStop) (hus : f.Fits us) (hbodied : ∀ u ∈ us, u.Each f.Bodied)
    (helse : ¬f.ElseFollows) :
    statements inner' none (f.cursor s) = .ok (us.map f.fragment ++ vs) z := by
  have hreads : ∀ s u s', statement inner s = .ok u s' → Reads n .statement s [u] s' :=
    fun _ _ _ => hn.sound.reads_statement
  have hy := rest_of_statements hn.sound h
  obtain ⟨n', hsound'⟩ := hn.sound'
  refine rows_cursor_append hreads (fun _ _ _ => hsound'.reads_statement) h hvs fun s u s' limit ws hu hread hend hws => ?_
  have hws := reads_rowsUpTo hreads hws
  refine hn.statement_cursor hread (ends_of_rowEnd hend (by simp) (fun hrest => ?_)
    (kinds_ne_dot_of_rows hws hy) fun _ => helse) (hus.of_mem hu) fun _ => hbodied u hu
  -- The last statement of the text ends where its last lexeme does.
  obtain ⟨ts, hts, -, hlast⟩ := (took_of_reads hws).taken
  rw [hrest] at hts
  rw [(List.append_eq_nil_iff.1 hts.symm).1] at hlast
  exact hstop.trans_eq hlast

/-- What stands before some statements does not matter to them. -/
theorem statements_alike (hn : inner.Sound n) (hblind : inner.Blind) (hs : s.SameButBreak s₁)
    (h : statements inner none s = .ok us y) : statements inner none s₁ = .ok us y := by
  have hreads : ∀ s u s', statement inner s = .ok u s' → Reads n .statement s [u] s' :=
    fun _ _ _ => hn.reads_statement
  have halike := hs
  obtain ⟨source, t, broken, ts, m, m', i⟩ := hs
  by_cases hk : t.kind = .symbol .semicolon
  · have hskips : Cursor.Skips (.symbol .semicolon)
        ⟨source, { t with afterBreak := broken } :: ts, m', i⟩ ⟨source, ts, t.stop, i⟩ :=
      ⟨_, .mk .., hk⟩
    exact rows_of_semicolons_eq hreads
      ((semicolons_of_skips ⟨t, .mk .., hk⟩).trans (semicolons_of_skips hskips).symm) h
  · have hno : ∀ {c : Cursor}, c.kind? = some t.kind → semicolons c = .ok () c :=
      fun hc => semicolons_of_not_isAt (by simpa [Cursor.isAt, hc] using hk)
    simp only [statements, rows, rowsUpTo, bind_eq_ok, get_eq_ok] at h ⊢
    obtain ⟨_, _, ⟨rfl, rfl⟩, _, _, hsemi, _, _, ⟨rfl, rfl⟩, h⟩ := h
    cases (hno rfl).symm.trans hsemi
    refine ⟨_, _, ⟨rfl, rfl⟩, _, _, hno rfl, _, _, ⟨rfl, rfl⟩, ?_⟩
    simp only [Cursor.kind?, List.head?_cons, Option.map_some, Option.isNone_some, Bool.false_or,
      beq_iff_eq, reduceCtorEq, if_false, bind_eq_ok] at h ⊢
    obtain ⟨u, s₂, hu, h⟩ := h
    exact ⟨u, s₂, hblind.blind_statement halike hu, h⟩

end Statements

/-! ## Contents -/

/-- What a file holds: directives, then statements. -/
def fileContents : Reader (List Fragment) := do
  let package ← packageDirective
  let imports ← rows (· != some (.keyword .import_)) none directive
  let body ← statements .outermost none
  return package ++ imports ++ body

theorem file_eq_ok : file s = .ok u s' ↔ ∃ us y, fileContents s = .ok us y ∧
    u = y.make .file ⟨0, byteLength y.source⟩ us ∧ s' = y.made := by
  simp only [file, fileContents, bind_eq_ok, get_eq_ok, pure_eq_ok]
  constructor
  · rintro ⟨ps, a, hps, is, b, his, us, y, hus, _, _, ⟨rfl, rfl⟩, h⟩
    obtain ⟨rfl, rfl⟩ := eq_of_make h
    exact ⟨_, y, ⟨ps, a, hps, is, b, his, us, y, hus, rfl, rfl⟩, rfl, rfl⟩
  · rintro ⟨_, _, ⟨ps, a, hps, is, b, his, us, y, hus, rfl, rfl⟩, rfl, rfl⟩
    exact ⟨ps, a, hps, is, b, his, us, y, hus, _, _, ⟨rfl, rfl⟩, rfl⟩

theorem rest_of_fileContents (h : fileContents s = .ok us y) : y.rest = [] := by
  simp only [fileContents, bind_eq_ok, pure_eq_ok] at h
  obtain ⟨ps, a, -, is, b, -, body, c, hbody, rfl, rfl⟩ := h
  exact rest_of_statements (Inner.sound_ofDepth maxNesting) hbody

theorem took_of_fileContents (h : fileContents s = .ok us y) : Took s us y := by
  simp only [fileContents, bind_eq_ok, pure_eq_ok] at h
  obtain ⟨ps, a, hps, is, b, his, body, c, hbody, rfl, rfl⟩ := h
  have htook := took_of_reads (reads_packageDirective (n := maxNesting) hps)
  have htook' := took_of_reads (reads_rows (n := maxNesting) (p := .directive)
    (fun _ _ _ => reads_directive) his)
  exact (htook.append htook').append
    (took_of_reads ((Inner.sound_ofDepth maxNesting).reads_statements hbody))

/-- The contents of the text are read in the longer text as well, and then the statements after
    them. -/
theorem fileContents_cursor_append (h : fileContents s = .ok us y)
    (hvs : statements .outermost none (f.cursor y) = .ok vs z) (hstop : f.stop ≤ y.lastStop)
    (hus : f.Fits us) (hbodied : ∀ u ∈ us, u.Each f.Bodied) (helse : ¬f.ElseFollows) :
    fileContents (f.cursor s) = .ok (us.map f.fragment ++ vs) z := by
  have hn := Inner.carries_ofDepth f (Nat.le_refl maxNesting)
  simp only [fileContents, bind_eq_ok, pure_eq_ok] at h ⊢
  obtain ⟨ps, a, hps, is, b, his, body, c, hbody, rfl, rfl⟩ := h
  obtain ⟨a', hps', ha'⟩ := packageDirective_cursor (f := f) hps
  obtain ⟨b', his', hb'⟩ := imports_cursor ha' his
  refine ⟨_, _, hps', _, _, his', _, _, rows_of_semicolons_eq
    (fun _ _ _ => hn.sound.reads_statement) hb'.symm (statements_cursor_append hn hbody hvs hstop
      (fits_append.1 hus).2 (List.forall_mem_append.1 hbodied).2 helse), ?_, rfl⟩
  simp only [List.map_append, List.append_assoc]

/-- To find no directive is to pass the semicolons only. -/
theorem semicolons_of_packageDirective_nil (h : packageDirective s = .ok [] s') :
    semicolons s' = semicolons s := by
  simp only [packageDirective, bind_eq_ok, get_eq_ok] at h
  obtain ⟨_, s₁, hsemi, _, _, ⟨rfl, rfl⟩, h⟩ := h
  split at h
  · simp only [bind_eq_ok, pure_eq_ok] at h
    obtain ⟨_, _, -, _, _, -, hnil, -⟩ := h
    cases hnil
  · obtain ⟨-, rfl⟩ := pure_eq_ok.1 h
    exact (semicolons_of_not_isAt (not_isAt_of_semicolons hsemi)).trans hsemi.symm

theorem semicolons_of_rows_nil {item : Reader Fragment} {stop : Option TokenKind → Bool}
    {closing : Option TokenKind} (h : rows stop closing item s = .ok [] s') :
    semicolons s' = semicolons s := by
  simp only [rows_apply, rowsUpTo, bind_eq_ok, get_eq_ok] at h
  obtain ⟨_, s₁, hsemi, _, _, ⟨rfl, rfl⟩, h⟩ := h
  split at h
  · obtain ⟨-, rfl⟩ := pure_eq_ok.1 h
    exact (semicolons_of_not_isAt (not_isAt_of_semicolons hsemi)).trans hsemi.symm
  · simp only [bind_eq_ok, pure_eq_ok] at h
    obtain ⟨_, _, -, _, _, -, _, _, -, hnil, -⟩ := h
    cases hnil

theorem isDirective_of_rows {n : Nat} (h : Reads n (.rows .directive) s us y) :
    ∀ u ∈ us, u.label.kind.isDirective := by
  generalize hp : Phrase.rows .directive = p at h
  induction h with
  | noRow => simp
  | semicolon _ _ ih => exact ih hp
  | row _ hu _ _ ih =>
    cases hp
    refine List.forall_mem_cons.2 ⟨?_, ih rfl⟩
    cases hu with
    | directive _ _ hk => exact hk
  | _ => cases hp

/-- Contents without directives are statements. -/
theorem statements_of_fileContents (h : fileContents s = .ok us y)
    (hus : ∀ u ∈ us, ¬u.label.kind.isDirective) : statements .outermost none s = .ok us y := by
  have hnil : ∀ {vs : List Fragment} {s s' : Cursor}, Reads 0 (.rows .directive) s vs s' →
      (∀ v ∈ vs, ¬v.label.kind.isDirective) → vs = [] := fun hvs hno =>
    List.eq_nil_iff_forall_not_mem.2 fun v hv => hno v hv (isDirective_of_rows hvs v hv)
  simp only [fileContents, bind_eq_ok, pure_eq_ok] at h
  obtain ⟨ps, a, hps, is, b, his, body, c, hbody, rfl, rfl⟩ := h
  simp only [List.forall_mem_append] at hus
  obtain rfl := hnil (reads_packageDirective hps) hus.1.1
  obtain rfl := hnil (reads_rows (fun _ _ _ => reads_directive) his) hus.1.2
  exact rows_of_semicolons_eq
    (fun _ _ _ => (Inner.sound_ofDepth maxNesting).reads_statement)
    ((semicolons_of_rows_nil his).trans (semicolons_of_packageDirective_nil hps)) hbody

/-! ## Two texts -/

/-- Where a statement begins behind the text, no `else` does. -/
theorem Frame.not_elseFollows (h : ∀ t ∈ (f.tail.dropWhile fun t =>
    t.kind == .symbol .semicolon).head?, t.kind.begins) : ¬f.ElseFollows := by
  intro hahead
  -- The `else` is no semicolon, so it is what comes behind any.
  have hno {t : Lexeme} {ts : List Lexeme} (hk : t.kind = .keyword .else_) :
      ∃ u ∈ ((t :: ts).dropWhile fun t => t.kind == .symbol .semicolon).head?,
        ¬u.kind.begins := by
    rw [List.dropWhile_cons_of_neg (by simp [hk])]
    exact ⟨t, rfl, by rw [hk]; nofun⟩
  obtain ⟨u, hu, hkind⟩ : ∃ u ∈ (f.tail.dropWhile fun t =>
      t.kind == .symbol .semicolon).head?, ¬u.kind.begins := by
    obtain ⟨t, ts, htail, hk | ⟨hk, t', ts', rfl, hk'⟩⟩ := rest_of_elseAhead hahead
    · rw [show f.tail = t :: ts from htail]
      exact hno hk
    · rw [show f.tail = t :: t' :: ts' from htail, List.dropWhile_cons_of_pos (by simp [hk])]
      exact hno hk'
  exact hkind (h u hu)

/-- A longer text that ends with a text. -/
def Frame.behind (source : List Char) (offset ids : Nat) : Frame :=
  ⟨source, offset, ids, [], 0, by simp, by simp⟩

theorem Frame.closes_behind (source : List Char) (offset ids : Nat) :
    (Frame.behind source offset ids).Closes := by
  simp [Closes, behind]

theorem fragment_eq_self (hoffset : f.offset = 0) (hids : f.ids = 0) (u : Fragment) :
    f.fragment u = u := by
  have hnode : f.node = id := by
    funext a
    rw [node, hoffset, hids]
    rfl
  rw [fragment, hnode, Tree.map_id]

theorem cursor_eq_append (hoffset : f.offset = 0) (hids : f.ids = 0) (s : Cursor) :
    f.cursor s = ⟨f.source, s.rest ++ f.tail, s.lastStop, s.nextId⟩ := by
  have hmap : s.rest.map (Lexeme.shift 0) = s.rest := List.map_id' _
  rw [cursor, hoffset, hids, hmap]
  rfl

theorem lexemes_true (broken : Bool) (ts : List Token) :
    lexemes true ts = (lexemes broken ts).modifyHead fun t => { t with afterBreak := true } := by
  induction ts generalizing broken with
  | nil => rfl
  | cons t ts ih =>
    rw [lexemes, lexemes, Bool.true_or]
    split
    · exact ih _
    · rfl

theorem statements_nil (inner : Inner) (h : s.rest = []) : statements inner none s = .ok [] s := by
  obtain ⟨source, _ | ⟨t, ts⟩, m, i⟩ := s
  · rfl
  · cases h

variable {source source₁ source₂ : List Char} {ts₁ ts₂ : List Token} {d : Nat}

/-- The statements of a text at the end of a longer one, after a line break. -/
theorem statements_behind {k : Nat}
    (h : statements .outermost none (.ofTokens source₂ ts₂) = .ok vs z)
    (hvs : (Frame.behind source d k).Fits vs) (m : Nat) :
    ∃ z', statements .outermost none ⟨source, (lexemes true ts₂).map (Lexeme.shift d), m, k⟩ =
      .ok (vs.map (Frame.behind source d k).fragment) z' ∧ z'.source = source ∧
      z'.nextId = z.nextId + k := by
  have hn := Inner.carries_ofDepth (Frame.behind source d k) (Nat.le_refl maxNesting)
  have hz := rest_of_statements hn.sound h
  have hbehind := statements_cursor_append hn h
    (statements_nil _ ((rest_cursor_nil hz).trans rfl)) (Nat.zero_le _) hvs
    (fun v hv => (hvs v hv).imp fun _ _ _ => .inl (closes_behind source d k)) nofun
  rw [List.append_nil, cursor, Cursor.ofTokens] at hbehind
  rw [lexemes_true false]
  cases hts : lexemes false ts₂ with
  | nil =>
    rw [Cursor.ofTokens, hts] at h
    rw [hts] at hbehind
    cases (statements_nil _ rfl).symm.trans h
    exact ⟨_, statements_nil _ rfl, rfl, (Nat.zero_add k).symm⟩
  | cons t ts =>
    rw [hts] at hbehind
    refine ⟨_, statements_alike hn.sound (Inner.blind_ofDepth maxNesting) ?_ hbehind, rfl, rfl⟩
    simp only [Frame.behind, List.append_nil, List.map_cons, List.modifyHead_cons, Nat.zero_add]
    exact .mk ..

/-- All lexemes are taken. -/
theorem lastStop_of_fileContents (h : fileContents (.ofTokens source ts₁) = .ok us y) :
    ∀ t ∈ (lexemes false ts₁).getLast?, t.stop = y.lastStop := by
  obtain ⟨ts, hts, -, hlast⟩ := (took_of_fileContents h).taken
  rw [rest_of_fileContents h, List.append_nil] at hts
  change lexemes false ts₁ = ts at hts
  intro t ht
  rw [hlast, ← hts, ht]
  rfl

/-- The contents of a text, a line break and a text without directives. -/
theorem fileContents_append (h₁ : fileContents (.ofTokens source₁ ts₁) = .ok us y)
    (h₂ : fileContents (.ofTokens source₂ ts₂) = .ok vs z)
    (hno : ∀ v ∈ vs, ¬v.label.kind.isDirective) (hus : ∀ u ∈ us, u.Each (HasText source))
    (hvs : (Frame.behind source d y.nextId).Fits vs)
    (hbare : (∀ t ∈ (lexemes true ts₂).head?, t.kind = .symbol .semicolon) ∨
      ∀ u ∈ us, Tree.Each (fun u : Fragment => u.isBare ∨ u.isBodiless →
        u.span.stop < y.lastStop) u) :
    ∃ z', fileContents
        ⟨source, lexemes false ts₁ ++ (lexemes true ts₂).map (Lexeme.shift d), 0, 0⟩ =
      .ok (us ++ vs.map (Frame.behind source d y.nextId).fragment) z' ∧ z'.source = source ∧
      z'.nextId = z.nextId + y.nextId := by
  obtain ⟨z', hbody, hsource, hnext⟩ := statements_behind (statements_of_fileContents h₂ hno) hvs
    y.lastStop
  have hz' := rest_of_statements (Inner.sound_ofDepth maxNesting) hbody
  have hbegins := begins_of_rows ((Inner.sound_ofDepth maxNesting).reads_statements hbody) hz'
  obtain ⟨f, rfl, hoffset, hids, htail, hstop⟩ : ∃ f : Frame, f.source = source ∧ f.offset = 0 ∧
      f.ids = 0 ∧ f.tail = (lexemes true ts₂).map (Lexeme.shift d) ∧ f.stop = y.lastStop := by
    refine ⟨⟨source, 0, 0, (lexemes true ts₂).map (Lexeme.shift d), y.lastStop, ?_,
      fun t ht => TokenKind.follows_of_begins (hbegins t ht)⟩, rfl, rfl, rfl, rfl, rfl⟩
    rw [lexemes_true false]
    cases lexemes false ts₂ <;> simp
  have helse : ¬f.ElseFollows := not_elseFollows (htail ▸ hbegins)
  have hclosed : ∀ u ∈ us, Tree.Each (fun v : Fragment => v.isBare ∨ v.isBodiless →
      f.Closes ∨ v.span.stop < f.stop) u := by
    intro u hu
    obtain hsemi | hbare := hbare
    · refine (hus u hu).imp fun _ _ _ => .inl ?_
      rw [Closes, htail, List.head?_map]
      intro t ht
      obtain ⟨t', ht', rfl⟩ := Option.map_eq_some_iff.1 ht
      exact hsemi t' ht'
    · exact (hbare u hu).imp fun _ hlt hbare => .inr (hstop ▸ hlt hbare)
  have hfits : f.Fits us := fun u hu =>
    ((hus u hu).and (hclosed u hu)).imp fun v ⟨htext, hclosed⟩ =>
      ⟨by rwa [hoffset], fun hbare => hclosed (.inl hbare), fun _ => .inl helse⟩
  have hbodied : ∀ u ∈ us, u.Each f.Bodied := fun u hu =>
    (hclosed u hu).imp fun _ hclosed hbodiless => hclosed (.inr hbodiless)
  have hvs' : statements .outermost none (f.cursor y) =
      .ok (vs.map (Frame.behind f.source d y.nextId).fragment) z' := by
    rw [cursor_eq_append hoffset hids, rest_of_fileContents h₁, htail]
    exact hbody
  have hall := fileContents_cursor_append h₁ hvs' hstop.le hfits hbodied helse
  rw [cursor_eq_append hoffset hids, htail, List.map_congr_left fun u _ =>
    fragment_eq_self hoffset hids u, List.map_id'] at hall
  exact ⟨z', hall, hsource, hnext⟩

end ResultHints
