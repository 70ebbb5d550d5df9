import Yul.Proofs.Layout.Gaps
import Yul.Proofs.Places.Parser

/-!
# The tokens of a spaced text

A source made of the texts of tokens with gaps between them is a row of the same tokens
(`Lexes.spaced`), wherever the texts come from.
-/

namespace Yul

open Pattern

/-! ## Texts of tokens -/

/-- The text that stands at a span of a source. -/
def Span.Cuts (s : Span) (source text : String) : Prop :=
  ∃ before after : String, source = before ++ text ++ after ∧ s.start = before.utf8ByteSize ∧
    s.stop = (before ++ text).utf8ByteSize

/-- A token that some source has, read from `text`. -/
def Token.ReadFrom (t : Token) (text : String) : Prop :=
  ∃ c v rest, text.toList = c :: v ∧ t.Reads (c :: v) rest

theorem Token.Reads.piece {t : Token} {text rest : List Char} (h : t.Reads text rest) :
    ∃ shape : Shape, text ∈ shape.pattern ∧ shape ≠ .trivia ∧
      ∀ span, Piece.item? ⟨shape, text⟩ span = some (.lexeme ⟨t, span⟩) := by
  have hpayload {payload : String} (hp : t.payload? = some payload) :
      String.ofList text = payload := by
    rw [← h.payload payload hp, String.ofList_toList]
  cases t with
  | keyword k =>
    obtain rfl : text = k.text.toList := h.pattern
    refine ⟨.word, k.text_mem_identifier, Shape.noConfusion, fun span => ?_⟩
    rw [Piece.item?]
    dsimp only
    rw [String.ofList_toList, k.ofText?_text]
    rfl
  | punct p => exact ⟨.punct p, h.pattern, Shape.noConfusion, fun _ => rfl⟩
  | hexNumber digits =>
    obtain rfl := hpayload rfl
    exact ⟨.hex, h.pattern, Shape.noConfusion, fun _ => rfl⟩
  | decimalNumber digits =>
    obtain rfl := hpayload rfl
    exact ⟨.decimal, h.pattern, Shape.noConfusion, fun _ => rfl⟩
  | string raw =>
    obtain rfl := hpayload rfl
    exact ⟨.string, h.pattern, Shape.noConfusion, fun _ => rfl⟩
  | hexString raw =>
    obtain rfl := hpayload rfl
    exact ⟨.hexString, h.pattern, Shape.noConfusion, fun _ => rfl⟩
  | identifier name =>
    have hnone : Keyword.ofText? (String.ofList text) = none := by
      cases hk : Keyword.ofText? (String.ofList text) with
      | none => rfl
      | some k =>
        have htext : k.text.toList = text := by
          rw [Keyword.text_of_ofText? hk, String.toList_ofList]
        exact Token.noConfusion (h.keyword k htext)
    refine ⟨.word, h.pattern, Shape.noConfusion, fun span => ?_⟩
    rw [Piece.item?]
    dsimp only
    rw [hnone, hpayload rfl]
    rfl
  | endOfInput => exact absurd h.pattern (Language.notMem_zero _)

theorem Token.Reads.not_blank {t : Token} {c : Char} {v rest : List Char}
    (h : t.Reads (c :: v) rest) : isBlank c = false := by
  obtain ⟨shape, hpattern, htrivia, -⟩ := h.piece
  refine Bool.eq_false_iff.mpr fun hblank => htrivia ?_
  have hshape := shapeOf_stops (r := []) hpattern htrivia fun _ hc => absurd hc (by simp)
  have hskip : shapeOf c (v ++ []) = (.trivia, ((v ++ []).takeWhile isBlank).length) :=
    if_pos hblank
  exact congrArg Prod.fst (hshape.symm.trans hskip)

/-! ## Reading a spaced text -/

theorem locate_trivia {ps : List Piece} (h : ∀ p ∈ ps, p.shape = .trivia) (offset : Nat)
    (qs : List Piece) : ∃ offset', locate offset (ps ++ qs) = locate offset' qs := by
  induction ps generalizing offset with
  | nil => exact ⟨offset, rfl⟩
  | cons p ps ih =>
    obtain ⟨shape, text⟩ := p
    rw [List.forall_mem_cons] at h
    obtain ⟨rfl, hps⟩ := h
    exact ih hps _

/-- Tokens that are read up to the end of the input. -/
def ReadsTokens (w : List Char) (tokens : List Token) : Prop :=
  ∀ offset, ∃ (ts : List Lexeme) (span : Span), locate offset (tile w) =
    ts.map Item.lexeme ++ [.lexeme ⟨.endOfInput, span⟩] ∧ ts.map Lexeme.token = tokens

theorem ReadsTokens.nil : ReadsTokens [] [] :=
  fun offset => ⟨[], ⟨offset, offset⟩, by rw [tile]; rfl, rfl⟩

theorem ReadsTokens.gaps {w r : List Char} {tokens : List Token} (hw : Gaps w)
    (hr : ∀ c ∈ r.head?, isBlank c = false) (h : ReadsTokens r tokens) :
    ReadsTokens (w ++ r) tokens := by
  intro offset
  obtain ⟨ps, htile, htrivia⟩ := tile_gaps hw hr
  obtain ⟨offset', hlocate⟩ := locate_trivia htrivia offset (tile r)
  rw [htile, hlocate]
  exact h offset'

theorem ReadsTokens.token {t : Token} {c : Char} {v rest r : List Char} {tokens : List Token}
    (ht : t.Reads (c :: v) rest) (hr : Stops r) (h : ReadsTokens r tokens) :
    ReadsTokens (c :: v ++ r) (t :: tokens) := by
  intro offset
  obtain ⟨shape, hpattern, htrivia, hitem⟩ := ht.piece
  obtain ⟨ts, span, hlocate, htokens⟩ := h (offset + Text.byteLength (c :: v))
  rw [List.cons_append, tile_of_shapeOf (shapeOf_stops hpattern htrivia hr), locate, hitem, hlocate]
  exact ⟨⟨t, _⟩ :: ts, span, rfl, congrArg _ htokens⟩

theorem ReadsTokens.text {t : Token} {text : String} {g r : List Char} {tokens : List Token}
    (ht : t.ReadFrom text) (hg : Gaps g) (hr : Stops r) (h : ReadsTokens r tokens) :
    ReadsTokens (g ++ (text.toList ++ r)) (t :: tokens) := by
  obtain ⟨c, v, rest, htext, hreads⟩ := ht
  rw [htext]
  exact (h.token hreads hr).gaps hg fun _ hc => Option.some.inj hc ▸ hreads.not_blank

theorem Pattern.Gaps.stops {w r : List Char} (h : Gaps w) (hr : w = [] → Stops r) :
    Stops (w ++ r) := by
  cases h with
  | nil => exact hr rfl
  | blank hc =>
    rintro _ ⟨rfl⟩
    exact .inl hc
  | line | comment =>
    rintro _ ⟨rfl⟩
    exact .inr rfl

section Spaced

variable {tokens : List Token} {texts : List String} {w : List Char}

theorem readsTokens_behind (h : List.Forall₂ Token.ReadFrom tokens texts) (hw : w ∈ behind texts) :
    Stops w ∧ ReadsTokens w tokens := by
  induction h generalizing w with
  | nil =>
    have hgaps := mem_kstar_gap.mp hw
    have hstops := hgaps.stops (r := []) fun _ _ hc => absurd hc (by simp)
    have hreads := ReadsTokens.nil.gaps hgaps fun _ hc => absurd hc (by simp)
    rw [List.append_nil] at hstops hreads
    exact ⟨hstops, hreads⟩
  | @cons t text tokens texts ht hrest ih =>
    obtain ⟨g, r, hgaps, hne, hr, rfl⟩ := mem_behind_cons.mp hw
    obtain ⟨hstops, hreads⟩ := ih hr
    exact ⟨hgaps.stops fun h => absurd h hne, hreads.text ht hgaps hstops⟩

/-- In a spaced text of tokens every token is read back. -/
theorem readsTokens_spaced (h : List.Forall₂ Token.ReadFrom tokens texts) (hw : w ∈ spaced texts) :
    ReadsTokens w tokens := by
  cases h with
  | nil => exact (readsTokens_behind .nil hw).2
  | @cons t text tokens texts ht hrest =>
    obtain ⟨g, r, hgaps, hr, rfl⟩ := mem_spaced_cons.mp hw
    obtain ⟨hstops, hreads⟩ := readsTokens_behind hrest hr
    exact hreads.text ht hgaps hstops

end Spaced

/-! ## Texts cut out of a source -/

theorem eq_of_byteLength_eq {a b r s : List Char} (h : a ++ r = b ++ s)
    (hlength : Text.byteLength a = Text.byteLength b) : a = b ∧ r = s := by
  have hnone {a c : List Char} (hlength : Text.byteLength (a ++ c) = Text.byteLength a) :
      c = [] := by
    by_contra hne
    have hpos := byteLength_pos hne
    rw [Text.byteLength_append] at hlength
    omega
  rcases List.append_eq_append_iff.mp h with ⟨c, rfl, rfl⟩ | ⟨c, rfl, rfl⟩
  · obtain rfl := hnone hlength.symm
    exact ⟨(List.append_nil a).symm, rfl⟩
  · obtain rfl := hnone hlength
    exact ⟨List.append_nil b, rfl⟩

theorem utf8ByteSize_eq_byteLength (s : String) : s.utf8ByteSize = Text.byteLength s.toList := by
  rw [← utf8ByteSize_ofList, String.ofList_toList]

theorem Item.Stands.text_eq {i : Item} {source text : String} {before mine rest : List Char}
    (h : i.Stands before mine rest) (hsource : source.toList = before ++ (mine ++ rest))
    (hcuts : i.span.Cuts source text) : text.toList = mine := by
  obtain ⟨first, after, rfl, hstart, hstop⟩ := hcuts
  rw [h.span] at hstart hstop
  simp only [utf8ByteSize_eq_byteLength, String.toList_append] at hstart hstop hsource
  rw [List.append_assoc] at hsource
  obtain ⟨rfl, hbehind⟩ := eq_of_byteLength_eq hsource hstart.symm
  rw [Text.byteLength_append, Text.byteLength_append] at hstop
  exact (eq_of_byteLength_eq hbehind (Nat.add_left_cancel hstop).symm).1

theorem moved_of_tokens {ts ts' : List Lexeme} (h : ts.map Lexeme.token = ts'.map Lexeme.token) :
    List.Forall₂ (Item.Moved fun _ _ => True) (ts.map Item.lexeme) (ts'.map Item.lexeme) := by
  rw [List.forall₂_map_left_iff, List.forall₂_map_right_iff]
  rw [← List.forall₂_eq_eq_eq, List.forall₂_map_left_iff, List.forall₂_map_right_iff] at h
  exact h.imp fun _ _ htoken => .lexeme ⟨htoken, trivial⟩

namespace Lexes

variable {source source' : String} {ts ts' : List Lexeme} {texts : List String}

theorem readFrom (h : Lexes source ts)
    (hcuts : List.Forall₂ (fun l text => l.span.Cuts source text) ts texts) :
    List.Forall₂ Token.ReadFrom (ts.map Lexeme.token) texts := by
  obtain ⟨span, hitems⟩ := h
  obtain ⟨is, hlocate, htiles⟩ := locate_tile [] source.toList
  obtain rfl : ts.map Item.lexeme = is := (List.append_inj' (hitems.symm.trans hlocate) rfl).1
  rw [List.forall₂_map_left_iff]
  rw [List.forall₂_iff_zip] at hcuts ⊢
  refine ⟨hcuts.1, fun {l text} hmem => ?_⟩
  have hl := (List.of_mem_zip hmem).1
  obtain ⟨before, mine, rest, hsource, hstands⟩ := htiles.stands _ (List.mem_map_of_mem hl)
  have htext := hstands.text_eq hsource (hcuts.2 hmem)
  obtain ⟨c, v, rfl⟩ := List.exists_cons_of_ne_nil hstands.ne_nil
  exact ⟨c, v, rest, htext, hstands.reads⟩

theorem spaced (h : Lexes source ts)
    (hcuts : List.Forall₂ (fun l text => l.span.Cuts source text) ts texts)
    (hspaced : source'.toList ∈ Pattern.spaced texts) :
    ∃ ts', Lexes source' ts' ∧ ts'.map Lexeme.token = ts.map Lexeme.token := by
  obtain ⟨ts', span, hlocate, htokens⟩ := readsTokens_spaced (h.readFrom hcuts) hspaced 0
  exact ⟨ts', ⟨span, hlocate⟩, htokens⟩

/-- Sources of the same tokens have the same items at other places. -/
theorem items_moved (h : Lexes source ts) (h' : Lexes source' ts')
    (htokens : ts'.map Lexeme.token = ts.map Lexeme.token) :
    List.Forall₂ (Item.Moved fun _ _ => True) (items source) (items source') := by
  obtain ⟨span, hitems⟩ := h
  obtain ⟨span', hitems'⟩ := h'
  rw [hitems, hitems']
  exact List.rel_append (moved_of_tokens htokens.symm) (.cons (.lexeme ⟨rfl, trivial⟩) .nil)

end Lexes

end Yul
