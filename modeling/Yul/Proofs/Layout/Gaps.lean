import Yul.Proofs.Token.Tiles

/-!
# Tokens and gaps

A gap is a blank, a comment up to the end of its line with the line break, or a comment with its
closing mark. A text is *spaced* if it is made of given texts with gaps between them, one or more,
and any number of gaps at both ends (`Pattern.spaced`). In a spaced text of tokens every token is
read back, whatever stood behind it before: a gap goes on with no token (`shapeOf_stops`), and
gaps are cut into blank pieces only (`tile_gaps`).
-/

namespace Yul

open Computability

namespace Pattern

/-! ## Gaps -/

/-- The least that separates tokens. -/
def gap : Language Char :=
  one isBlank + lineComment * lit "\n" + blockComment

/-- What stands behind a token: gaps, and further texts behind one gap or more. -/
def behind : List String → Language Char
  | [] => gap∗
  | t :: ts => plus gap * (lit t * behind ts)

/-- Texts with gaps between them and, maybe, around them. -/
def spaced : List String → Language Char
  | [] => gap∗
  | t :: ts => gap∗ * (lit t * behind ts)

/-- Gaps one after the other, read in one pass. -/
inductive Gaps : List Char → Prop where
  | nil : Gaps []
  | blank {c : Char} {w : List Char} (hc : isBlank c = true) (h : Gaps w) : Gaps (c :: w)
  | line {v w : List Char} (hv : ∀ c ∈ v, c ≠ '\n') (h : Gaps w) :
      Gaps ('/' :: '/' :: (v ++ '\n' :: w))
  | comment {v w : List Char} (hv : CommentTail false v) (h : Gaps w) :
      Gaps ('/' :: '*' :: (v ++ w))

theorem mem_line {w : List Char} : w ∈ lineComment * lit "\n" ↔
    ∃ v, (∀ c ∈ v, c ≠ '\n') ∧ w = '/' :: '/' :: (v ++ ['\n']) := by
  rw [lineComment, mul_assoc, mem_lit_mul]
  constructor
  · rintro ⟨_, ⟨v, hv, _, rfl, rfl⟩, rfl⟩
    exact ⟨v, fun c hc => of_decide_eq_true (mem_kstar_one.mp hv c hc), rfl⟩
  · rintro ⟨v, hv, rfl⟩
    refine ⟨v ++ ['\n'], Language.append_mem_mul (mem_kstar_one.mpr fun c hc => ?_) rfl, rfl⟩
    exact decide_eq_true (hv c hc)

theorem nil_notMem_gap : [] ∉ gap := by
  rintro ((⟨_, _, h⟩ | h) | h)
  · cases h
  · obtain ⟨_, _, h⟩ := mem_line.mp h
    cases h
  · obtain ⟨_, _, h⟩ := mem_blockComment.mp h
    cases h

def gapRuns : Language Char :=
  {w | Gaps w}

theorem gapRuns_eq : gapRuns = gap∗ := by
  rw [← mul_one gap∗]
  refine (Language.self_eq_mul_add_iff nil_notMem_gap).mp (Language.ext fun w => ?_)
  rw [Language.mem_add, Language.mem_one, gap, add_mul, add_mul, Language.mem_add,
    Language.mem_add, mem_one_mul]
  constructor
  · intro h
    cases h with
    | nil => exact .inr rfl
    | @blank c w hc h => exact .inl (.inl (.inl ⟨c, w, hc, h, rfl⟩))
    | @line v w hv h =>
      refine .inl (.inl (.inr ⟨_, mem_line.mpr ⟨v, hv, rfl⟩, w, h, ?_⟩))
      simp
    | @comment v w hv h =>
      exact .inl (.inr ⟨_, mem_blockComment.mpr ⟨v, hv, rfl⟩, w, h, rfl⟩)
  · rintro (((⟨c, w, hc, h, rfl⟩ | ⟨_, hline, w, h, rfl⟩) | ⟨_, hcomment, w, h, rfl⟩) | rfl)
    · exact .blank hc h
    · obtain ⟨v, hv, rfl⟩ := mem_line.mp hline
      show Gaps _
      simpa using Gaps.line hv h
    · obtain ⟨v, hv, rfl⟩ := mem_blockComment.mp hcomment
      exact .comment hv h
    · exact .nil

theorem mem_kstar_gap {w : List Char} : w ∈ gap∗ ↔ Gaps w := by
  rw [← gapRuns_eq]
  rfl

theorem mem_plus_gap {w : List Char} : w ∈ plus gap ↔ Gaps w ∧ w ≠ [] := by
  rw [← mem_kstar_gap, ← Language.one_add_self_mul_kstar_eq_kstar, Language.mem_add,
    Language.mem_one, plus]
  constructor
  · refine fun h => ⟨.inr h, ?_⟩
    rintro rfl
    obtain ⟨u, hu, _, -, heq⟩ := h
    exact nil_notMem_gap ((List.append_eq_nil_iff.mp heq).1 ▸ hu)
  · exact fun h => h.1.resolve_left h.2

theorem mem_behind_cons {t : String} {ts : List String} {w : List Char} :
    w ∈ behind (t :: ts) ↔
      ∃ g r, Gaps g ∧ g ≠ [] ∧ r ∈ behind ts ∧ w = g ++ (t.toList ++ r) := by
  simp only [behind, Language.mem_mul, mem_plus_gap, mem_lit]
  constructor
  · rintro ⟨g, ⟨hg, hne⟩, _, ⟨_, rfl, r, hr, rfl⟩, rfl⟩
    exact ⟨g, r, hg, hne, hr, rfl⟩
  · rintro ⟨g, r, hg, hne, hr, rfl⟩
    exact ⟨g, ⟨hg, hne⟩, _, ⟨_, rfl, r, hr, rfl⟩, rfl⟩

theorem mem_spaced_cons {t : String} {ts : List String} {w : List Char} :
    w ∈ spaced (t :: ts) ↔ ∃ g r, Gaps g ∧ r ∈ behind ts ∧ w = g ++ (t.toList ++ r) := by
  simp only [spaced, Language.mem_mul, mem_kstar_gap, mem_lit]
  constructor
  · rintro ⟨g, hg, _, ⟨_, rfl, r, hr, rfl⟩, rfl⟩
    exact ⟨g, r, hg, hr, rfl⟩
  · rintro ⟨g, r, hg, hr, rfl⟩
    exact ⟨g, hg, _, ⟨_, rfl, r, hr, rfl⟩, rfl⟩

end Pattern

open Pattern

/-! ## Behind a token -/

/-- What a token cannot go on with. -/
def Stops (r : List Char) : Prop :=
  ∀ c ∈ r.head?, isBlank c = true ∨ c = '/'

theorem takeWhile_append_eq {p : Char → Bool} {v r : List Char} (hv : ∀ c ∈ v, p c = true)
    (hr : ∀ c ∈ r.head?, p c = false) : (v ++ r).takeWhile p = v := by
  rw [List.takeWhile_append_of_pos hv]
  cases r with
  | nil => exact List.append_nil v
  | cons c r =>
    rw [List.takeWhile_cons, hr c rfl]
    exact List.append_nil v

theorem Stops.head_ne {r : List Char} (hr : Stops r) {d : Char} (hblank : isBlank d = false)
    (hslash : d ≠ '/') : ∀ r', r ≠ d :: r' := by
  rintro r' rfl
  rcases hr d rfl with h | h
  · exact absurd (hblank.symm.trans h) (by simp)
  · exact hslash h

theorem Stops.not_part {r : List Char} (hr : Stops r) :
    ∀ c ∈ r.head?, isDigit c = false ∧ isHexDigit c = false ∧ isNamePart c = false := by
  intro c hc
  have hgap := hr c hc
  simp only [isBlank, Bool.or_eq_true, decide_eq_true_eq] at hgap
  rcases hgap with ((((rfl | rfl) | rfl) | rfl) | rfl) | rfl <;> decide

section Stops

variable {c : Char} {v r : List Char}

theorem shapeOf_punct_stops {p : Punct} (h : c :: v = p.text.toList) (hr : Stops r) :
    shapeOf c (v ++ r) = (.punct p, v.length) := by
  cases p with
  | colon =>
    have hcolon : c :: v = [':'] := h
    obtain ⟨rfl, rfl⟩ := List.cons.inj hcolon
    cases r with
    | nil => rfl
    | cons d r =>
      have hd : d ≠ '=' := fun hd => hr.head_ne (d := '=') (by decide) (by decide) r (hd ▸ rfl)
      simp [shapeOf, isBlank, isDigit, isNameStart, hd]
  | _ =>
    obtain ⟨rfl, rfl⟩ := List.cons.inj h
    rfl

theorem shapeOf_decimal_stops (hc : isDigit c = true) (hv : ∀ d ∈ v, isDigit d = true)
    (hr : Stops r) : shapeOf c (v ++ r) = (.decimal, v.length) := by
  have htake := takeWhile_append_eq hv fun d hd => (hr.not_part d hd).1
  unfold shapeOf
  rw [if_neg (not_isBlank_of_isDigit hc), if_pos hc]
  split
  · next r' hx =>
    -- an `x` would be a digit or stand in the gap
    exfalso
    cases v with
    | nil => exact hr.head_ne (by decide) (by decide) _ hx
    | cons d v =>
      obtain ⟨rfl, -⟩ := List.cons.inj hx
      exact absurd (hv 'x' List.mem_cons_self) (by decide)
  · rw [htake]

theorem shapeOf_hex_stops (hne : v ≠ []) (hv : ∀ d ∈ v, isHexDigit d = true) (hr : Stops r) :
    shapeOf '0' ('x' :: (v ++ r)) = (.hex, 1 + v.length) := by
  have htake := takeWhile_append_eq hv fun d hd => (hr.not_part d hd).2.1
  obtain ⟨d, ds, rfl⟩ := List.exists_cons_of_ne_nil hne
  rw [List.cons_append] at htake
  simp [shapeOf, isBlank, isDigit, htake]

theorem shapeOf_word_stops (hc : isNameStart c = true) (hv : ∀ d ∈ v, isNamePart d = true)
    (hr : Stops r) : shapeOf c (v ++ r) = (.word, v.length) := by
  have htake := takeWhile_append_eq hv fun d hd => (hr.not_part d hd).2.2
  unfold shapeOf
  rw [if_neg (not_isBlank_of_isNameStart hc), if_neg (not_isDigit_of_isNameStart hc), if_pos hc]
  split
  · next r' hhex =>
    -- the pass over the name stops at the quote, which stands in no gap
    exfalso
    rw [hhex] at htake
    obtain rfl : v = ['e', 'x'] := htake.symm
    have hquote : r = '"' :: r' := List.append_cancel_left hhex
    exact hr.head_ne (by decide) (by decide) r' hquote
  · rw [htake]

/-- A token is read back in front of a gap. -/
theorem shapeOf_stops {shape : Shape} (h : c :: v ∈ shape.pattern) (htrivia : shape ≠ .trivia)
    (hr : Stops r) : shapeOf c (v ++ r) = (shape, v.length) := by
  cases shape with
  | trivia => exact absurd rfl htrivia
  | unknown => exact absurd h (Language.notMem_zero _)
  | punct p => exact shapeOf_punct_stops h hr
  | decimal =>
    have hdigits := (mem_plus_one.mp h).2
    rw [List.forall_mem_cons] at hdigits
    exact shapeOf_decimal_stops hdigits.1 hdigits.2 hr
  | hex =>
    obtain ⟨ds, hds, heq⟩ := mem_lit_mul.mp h
    obtain ⟨rfl, rfl⟩ := List.cons.inj heq
    obtain ⟨hne, hdigits⟩ := mem_plus_one.mp hds
    exact (shapeOf_hex_stops hne hdigits hr).trans (congrArg _ (Nat.add_comm _ _))
  | string =>
    obtain ⟨_, hv, heq⟩ := mem_string.mp h
    obtain ⟨rfl, rfl⟩ := List.cons.inj heq
    exact shapeOf_string hv r
  | hexString =>
    obtain ⟨ds, hds, heq⟩ := mem_hexString.mp h
    obtain ⟨rfl, rfl⟩ := List.cons.inj heq
    refine (shapeOf_hexPairs hds r).trans (congrArg _ ?_)
    simp only [List.length_cons, List.length_append, List.length_nil]
    omega
  | word =>
    obtain ⟨_, _, hc, hv, heq⟩ := mem_identifier.mp h
    obtain ⟨rfl, rfl⟩ := List.cons.inj heq
    exact shapeOf_word_stops hc hv hr

end Stops

/-! ## Pieces of gaps -/

theorem tile_cons (c : Char) (cs : List Char) :
    tile (c :: cs) = ⟨(shapeOf c cs).1, c :: cs.take (shapeOf c cs).2⟩ ::
      tile (cs.drop (shapeOf c cs).2) := by
  rw [tile]

theorem tile_of_shapeOf {c : Char} {v r : List Char} {shape : Shape}
    (h : shapeOf c (v ++ r) = (shape, v.length)) :
    tile (c :: (v ++ r)) = ⟨shape, c :: v⟩ :: tile r := by
  rw [tile_cons, h, List.take_left, List.drop_left]

theorem Pattern.Gaps.dropWhile {w : List Char} (h : Gaps w) : Gaps (w.dropWhile isBlank) := by
  induction h with
  | nil => exact .nil
  | @blank c w hc h ih => rwa [List.dropWhile_cons, hc]
  | line hv h => exact .line hv h
  | comment hv h => exact .comment hv h

theorem head?_dropWhile_append {p : Char → Bool} {w r : List Char}
    (hr : ∀ c ∈ r.head?, p c = false) : ∀ c ∈ (w.dropWhile p ++ r).head?, p c = false := by
  induction w with
  | nil => exact hr
  | cons c w ih =>
    rw [List.dropWhile_cons]
    split
    · exact ih
    · next hc =>
      rintro d ⟨rfl⟩
      exact Bool.eq_false_iff.mpr hc

/-- Gaps in front of what is not blank are cut into blank pieces. -/
theorem tile_gaps {w r : List Char} (h : Gaps w) (hr : ∀ c ∈ r.head?, isBlank c = false) :
    ∃ ps, tile (w ++ r) = ps ++ tile r ∧ ∀ p ∈ ps, p.shape = .trivia := by
  -- a piece of blanks may take in several gaps, so the induction is on the length
  induction hn : w.length using Nat.strong_induction_on generalizing w with
  | _ n ih =>
  subst hn
  have hstep {c : Char} {v w' : List Char} (hw : w = c :: (v ++ w')) (hw' : Gaps w')
      (hshape : shapeOf c (v ++ (w' ++ r)) = (.trivia, v.length)) :
      ∃ ps, tile (w ++ r) = ps ++ tile r ∧ ∀ p ∈ ps, p.shape = .trivia := by
    have hlt : w'.length < w.length := by
      rw [hw, List.length_cons, List.length_append]
      omega
    obtain ⟨ps, htile, htrivia⟩ := ih _ hlt hw' rfl
    refine ⟨⟨.trivia, c :: v⟩ :: ps, ?_, List.forall_mem_cons.mpr ⟨rfl, htrivia⟩⟩
    rw [hw, List.cons_append, List.append_assoc, tile_of_shapeOf hshape, htile, List.cons_append]
  cases h with
  | nil => exact ⟨[], rfl, List.forall_mem_nil _⟩
  | @blank c w hc h =>
    refine hstep (c := c) (v := w.takeWhile isBlank) ?_ h.dropWhile ?_
    · rw [List.takeWhile_append_dropWhile]
    · have htake := takeWhile_append_eq (forall_mem_takeWhile isBlank w)
        (head?_dropWhile_append (w := w) hr)
      exact (if_pos hc).trans (congrArg (fun v => (Shape.trivia, v.length)) htake)
  | @line v w hv h =>
    -- the line break is left, and begins the blanks that follow
    refine hstep (v := '/' :: v) rfl (Gaps.blank (c := '\n') rfl h) ?_
    have htake : (v ++ '\n' :: (w ++ r)).takeWhile (· ≠ '\n') = v :=
      takeWhile_append_eq (fun c hc => decide_eq_true (hv c hc)) fun c hc => by
        rw [← Option.some.inj hc]
        rfl
    show (Shape.trivia, 1 + ((v ++ '\n' :: (w ++ r)).takeWhile (· ≠ '\n')).length) = _
    rw [htake, List.length_cons, Nat.add_comm]
  | @comment v w hv h =>
    refine hstep (v := '*' :: v) rfl h ?_
    exact (shapeOf_blockComment hv (w ++ r)).trans (congrArg _ (Nat.add_comm _ _))

end Yul
