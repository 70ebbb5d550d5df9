import Yul.Proofs.Places.Nodes
import Yul.Proofs.Prompt.Exact

/-!
# Spans of nodes are exact and nested

The tokens of a source are laid out one behind the other, so the span of a node goes from the start
of its first token to the end of its last one (`LaidOut.spanOf_eq`). The children of a node are read
from pieces of its tokens, one behind the other (`DerivesNode.children`). This holds of the whole tree
and is handed down from each node to its children, so all nodes are placed as they should be
(`nodes_placed`).
-/

namespace Yul

/-! ## Tokens one behind the other -/

/-- Tokens that are not empty and stand one behind the other. -/
structure LaidOut (ts : List Lexeme) : Prop where
  nonempty : ∀ l ∈ ts, l.span.start < l.span.stop
  apart : ts.Pairwise fun l m => l.span.stop ≤ m.span.start

/-- A span goes from a token of a row to another one. -/
def Span.EndsIn (s : Span) (ts : List Lexeme) : Prop :=
  ∃ first ∈ ts, ∃ last ∈ ts, s = ⟨first.span.start, last.span.stop⟩

theorem Span.EndsIn.mono {s : Span} {ts us : List Lexeme} (h : s.EndsIn ts) (hsub : ts ⊆ us) :
    s.EndsIn us := by
  obtain ⟨first, hfirst, last, hlast, hs⟩ := h
  exact ⟨first, hsub hfirst, last, hsub hlast, hs⟩

theorem Lexes.laidOut {source : String} {ts : List Lexeme} (h : Lexes source ts) : LaidOut ts := by
  obtain ⟨span, hitems⟩ := h
  obtain ⟨hapart, -, hbehind⟩ := List.pairwise_append.mp (lexemes_apart hitems)
  exact ⟨fun l hl => (hbehind l hl _ List.mem_cons_self).1, hapart.imp fun h => h.2⟩

theorem exists_getLast? (before : Span) (l : Lexeme) (ts : List Lexeme) :
    ∃ last ∈ l :: ts, (l :: ts).getLast? = some last ∧ lastSpan before (l :: ts) = last.span := by
  induction ts generalizing before l with
  | nil => exact ⟨l, List.mem_cons_self, rfl, rfl⟩
  | cons m ts ih =>
    obtain ⟨last, hmem, hlast, hspan⟩ := ih l.span m
    exact ⟨last, List.mem_cons_of_mem l hmem, by rw [List.getLast?_cons_cons, hlast], hspan⟩

namespace LaidOut

variable {l m : Lexeme} {ts us : List Lexeme} {s t : Span}

theorem sublist (h : LaidOut ts) (hsub : us.Sublist ts) : LaidOut us :=
  ⟨fun l hl => h.nonempty l (hsub.subset hl), h.apart.sublist hsub⟩

theorem left (h : LaidOut (ts ++ us)) : LaidOut ts :=
  h.sublist (List.sublist_append_left ts us)

theorem right (h : LaidOut (ts ++ us)) : LaidOut us :=
  h.sublist (List.sublist_append_right ts us)

theorem tail (h : LaidOut (l :: ts)) : LaidOut ts :=
  h.sublist (List.sublist_cons_self l ts)

theorem le_of_mem (h : LaidOut (l :: ts)) (hm : m ∈ l :: ts) :
    l.span.start ≤ m.span.start ∧ l.span.stop ≤ m.span.stop := by
  rcases List.mem_cons.mp hm with rfl | hm
  · exact ⟨Nat.le_refl _, Nat.le_refl _⟩
  · have hl := h.nonempty l List.mem_cons_self
    have hm' := h.nonempty m (List.mem_cons_of_mem l hm)
    have hapart := (List.pairwise_cons.mp h.apart).1 m hm
    omega

theorem le_getLast (h : LaidOut ts) (hlast : ts.getLast? = some m) (hl : l ∈ ts) :
    l.span.stop ≤ m.span.stop := by
  obtain ⟨us, rfl⟩ := List.getLast?_eq_some_iff.mp hlast
  rcases List.mem_append.mp hl with hl | hl
  · have hm := h.nonempty m (List.mem_append_right us List.mem_cons_self)
    have hapart := (List.pairwise_append.mp h.apart).2.2 l hl m List.mem_cons_self
    omega
  · rw [List.mem_singleton.mp hl]

theorem spanOf_eq (h : LaidOut ts) (hne : ts ≠ []) : ∃ first last, ts.head? = some first ∧
    ts.getLast? = some last ∧ spanOf ts = ⟨first.span.start, last.span.stop⟩ := by
  obtain ⟨l, rest, rfl⟩ := List.exists_cons_of_ne_nil hne
  obtain ⟨last, hmem, hlast, hspan⟩ := exists_getLast? l.span l rest
  refine ⟨l, last, rfl, hlast, ?_⟩
  obtain ⟨hstart, hstop⟩ := h.le_of_mem hmem
  have hmerge : spanOf (l :: rest) = l.span.merge last.span := congrArg l.span.merge hspan
  rw [hmerge, Span.merge, Nat.min_eq_left hstart, Nat.max_eq_right hstop]

theorem endsIn (h : LaidOut ts) (hs : Spans ts s) : s.EndsIn ts := by
  obtain ⟨hne, rfl⟩ := hs
  obtain ⟨first, last, hfirst, hlast, hspan⟩ := h.spanOf_eq hne
  exact ⟨first, List.mem_of_head? hfirst, last, List.mem_of_getLast? hlast, hspan⟩

theorem inside (h : LaidOut ts) (hs : s.EndsIn ts) :
    (spanOf ts).start ≤ s.start ∧ s.stop ≤ (spanOf ts).stop := by
  obtain ⟨k, hk, m, hm, rfl⟩ := hs
  obtain ⟨first, last, hfirst, hlast, hspan⟩ := h.spanOf_eq (List.ne_nil_of_mem hk)
  rw [hspan]
  obtain ⟨rest, rfl⟩ := List.head?_eq_some_iff.mp hfirst
  exact ⟨(h.le_of_mem hk).1, h.le_getLast hlast hm⟩

theorem before (h : LaidOut (ts ++ us)) (hs : s.EndsIn ts) (ht : t.EndsIn us) :
    s.start < t.start ∧ s.stop ≤ t.start := by
  obtain ⟨first, hfirst, last, hlast, rfl⟩ := hs
  obtain ⟨first', hfirst', -, -, rfl⟩ := ht
  have hbehind := (List.pairwise_append.mp h.apart).2.2
  have hlong := h.nonempty first (List.mem_append_left us hfirst)
  exact ⟨Nat.lt_of_lt_of_le hlong (hbehind first hfirst first' hfirst'),
    hbehind last hlast first' hfirst'⟩

end LaidOut

/-! ## Pieces of a row -/

/-- Nodes that are read from pieces of a row, one behind the other. -/
inductive DerivesAmong : List Lexeme → List Node → Prop where
  | nil (ts : List Lexeme) : DerivesAmong ts []
  | cons {ts us : List Lexeme} {n : Node} {ns : List Node} (before : List Lexeme)
      (h : DerivesNode ts n) (hrest : DerivesAmong us ns) :
      DerivesAmong (before ++ (ts ++ us)) (n :: ns)

namespace DerivesAmong

variable {ts us : List Lexeme} {l : Lexeme} {n : Node} {ns ms : List Node}

theorem behind (h : DerivesAmong us ns) (ts : List Lexeme) : DerivesAmong (ts ++ us) ns := by
  cases h with
  | nil => exact .nil _
  | cons before h hrest =>
    rw [← List.append_assoc]
    exact .cons (ts ++ before) h hrest

theorem token (h : DerivesAmong ts ns) (l : Lexeme) : DerivesAmong (l :: ts) ns :=
  h.behind [l]

theorem append (h : DerivesAmong ts ns) (h' : DerivesAmong us ms) :
    DerivesAmong (ts ++ us) (ns ++ ms) := by
  induction h with
  | nil ts => exact h'.behind ts
  | cons before h _ ih =>
    rw [List.append_assoc, List.append_assoc]
    exact .cons before h ih

theorem before (h : DerivesAmong ts ns) (us : List Lexeme) : DerivesAmong (ts ++ us) ns := by
  simpa using h.append (.nil us)

theorem single (h : DerivesNode ts n) : DerivesAmong ts [n] := by
  simpa using cons [] h (.nil [])

theorem exists_of_mem (h : DerivesAmong ts ns) (hn : n ∈ ns) : ∃ before mine after,
    ts = before ++ (mine ++ after) ∧ DerivesNode mine n := by
  induction h with
  | nil => cases hn
  | @cons mine us m ms before h _ ih =>
    rcases List.mem_cons.mp hn with rfl | hn
    · exact ⟨before, mine, us, rfl, h⟩
    · obtain ⟨behind, theirs, after, rfl, hn⟩ := ih hn
      refine ⟨before ++ (mine ++ behind), theirs, after, ?_, hn⟩
      simp only [List.append_assoc]

theorem endsIn (h : DerivesAmong ts ns) (hl : LaidOut ts) (hn : n ∈ ns) : n.span.EndsIn ts := by
  obtain ⟨before, mine, after, rfl, hnode⟩ := h.exists_of_mem hn
  exact (hl.right.left.endsIn hnode.spans).mono
    (List.subset_append_of_subset_right _ (List.subset_append_left _ _))

theorem pairwise (h : DerivesAmong ts ns) (hl : LaidOut ts) :
    ns.Pairwise fun n m => n.span.stop ≤ m.span.start := by
  induction h with
  | nil => exact .nil
  | cons before h hrest ih =>
    have hbehind := hl.right
    refine .cons (fun m hm => ?_) (ih hbehind.right)
    exact (hbehind.before (hbehind.left.endsIn h.spans) (hrest.endsIn hbehind.right hm)).2

end DerivesAmong

/-! ## Children -/

section Lists

variable {α : Type} {R : List Lexeme → α → Prop} {f : α → Node} {ts : List Lexeme} {as : List α}
  (hR : ∀ ts a, R ts a → DerivesNode ts (f a))

include hR

theorem DerivesAfterCommas.among (h : DerivesAfterCommas R ts as) :
    DerivesAmong ts (as.map f) := by
  induction h with
  | nil => exact .nil _
  | cons comma h _ ih => exact ((DerivesAmong.single (hR _ _ h)).append ih).token _

theorem DerivesCommas.among (h : DerivesCommas R ts as) : DerivesAmong ts (as.map f) := by
  cases h with
  | mk h hrest => exact (DerivesAmong.single (hR _ _ h)).append (hrest.among hR)

theorem DerivesOptional.among (h : DerivesOptional R ts as) : DerivesAmong ts (as.map f) := by
  cases h with
  | none => exact .nil _
  | some h => exact h.among hR

end Lists

section Children

variable {n : Nat} {ts : List Lexeme}

theorem DerivesExpr.children {e : Expr} (h : DerivesExpr ts e) : DerivesAmong ts e.children := by
  cases h with
  | literal h => exact .single (.literal h)
  | identifier h => exact .single (.identifier h)
  | call f opening closing h hts =>
    subst hts
    have harguments := (h.among fun _ _ h => .expression h).before [Punct.rparen.lexeme closing]
    exact (DerivesAmong.single (.identifier (.mk f))).append (harguments.token _)

theorem DerivesReturns.among {xs : List TypedName} (h : DerivesReturns ts xs) :
    DerivesAmong ts (xs.map .typedName) := by
  cases h with
  | none => exact .nil _
  | some arrow h => exact (h.among fun _ _ h => .typedName h).token _

theorem DerivesInitial.among {value : Option Expr} (h : DerivesInitial ts value) :
    DerivesAmong ts (value.map Node.expression).toList := by
  cases h with
  | none => exact .nil _
  | some assign h => exact (DerivesAmong.single (.expression h)).token _

theorem DerivesStmts.among {n : Nat} {ts : List Lexeme} {ss : List Stmt}
    (h : DerivesStmts n ts ss) : DerivesAmong ts (ss.map .statement) := by
  match h with
  | .nil => exact .nil _
  | .cons h hrest => exact (DerivesAmong.single (.statement h)).append hrest.among

theorem DerivesArms.among {n : Nat} {ts : List Lexeme} {arms : List Case}
    (h : DerivesArms n ts arms) : DerivesAmong ts (arms.map .arm) := by
  match h with
  | .nil => exact .nil _
  | .default k hbody hts => exact .single (.arm (.default k hbody hts))
  | .case k hvalue hbody hrest hts =>
    have harm := DerivesArms.case k hvalue hbody .nil hts
    rw [List.append_nil] at harm
    exact (DerivesAmong.single (.arm harm)).append hrest.among

theorem DerivesStmt.children {s : Stmt} (h : DerivesStmt n ts s) : DerivesAmong ts s.children := by
  cases h with
  | block h => exact .single (.block h)
  | expression h => exact .single (.expression h)
  | breakLoop | continueLoop | leave => exact .nil _
  | assignment assign htargets hvalue hts =>
    subst hts
    exact (htargets.among fun _ _ h => .identifier h).append
      ((DerivesAmong.single (.expression hvalue)).token _)
  | declaration k hdeclared hvalue hts =>
    subst hts
    exact ((hdeclared.among fun _ _ h => .typedName h).append hvalue.among).token _
  | ifThen k he hbody hts =>
    subst hts
    exact ((DerivesAmong.single (.expression he)).append (.single (.block hbody))).token _
  | switch k he harms hsome hts =>
    subst hts
    exact ((DerivesAmong.single (.expression he)).append harms.among).token _
  | forLoop k hinit he hpost hbody hts =>
    subst hts
    have hrest := (DerivesAmong.single (.block hpost)).append (.single (.block hbody))
    exact ((DerivesAmong.single (.block hinit)).append
      ((DerivesAmong.single (.expression he)).append hrest)).token _
  | function k opening closing name hparams hreturns hbody hts =>
    subst hts
    have hrest := hreturns.among.append (.single (.block hbody))
    have hparts := (hparams.among fun _ _ h => .typedName h).append
      (hrest.token (Punct.rparen.lexeme closing))
    exact ((DerivesAmong.single (.identifier (.mk name))).append (hparts.token _)).token _

end Children

/-! ### Objects -/

section Siblings

variable {o : Object} {d : DataSection} {objects : List Object} {data : List DataSection}

theorem mem_siblings {m : Node} :
    m ∈ siblings objects data ↔ m ∈ objects.map Node.object ∨ m ∈ data.map Node.data :=
  List.mem_merge

theorem siblings_nil : siblings [] [] = [] := by
  simp [siblings]

theorem siblings_object (h : ∀ m ∈ siblings objects data, o.span.start < m.span.start) :
    siblings (o :: objects) data = .object o :: siblings objects data := by
  cases data with
  | nil => simp [siblings]
  | cons d data =>
    have hd := h (.data d) (mem_siblings.mpr (.inr List.mem_cons_self))
    exact List.cons_merge_cons_pos _ _ _ (decide_eq_true (Nat.le_of_lt hd))

theorem siblings_data (h : ∀ m ∈ siblings objects data, d.span.start < m.span.start) :
    siblings objects (d :: data) = .data d :: siblings objects data := by
  cases objects with
  | nil => simp [siblings]
  | cons o objects =>
    have ho := h (.object o) (mem_siblings.mpr (.inl List.mem_cons_self))
    exact List.cons_merge_cons_neg _ _ _ fun hle => Nat.not_lt_of_le (of_decide_eq_true hle) ho

end Siblings

theorem DerivesParts.among {n : Nat} {ts : List Lexeme} {objects : List Object}
    {data : List DataSection} (h : DerivesParts n ts objects data) (hl : LaidOut ts) :
    DerivesAmong ts (siblings objects data) := by
  -- what is read behind a part starts behind it, so the part comes first in the merged row
  match h with
  | .nil => exact siblings_nil ▸ .nil []
  | .object h hrest =>
    have hamong := hrest.among hl.right
    rw [siblings_object fun m hm => ?_]
    · exact (DerivesAmong.single (.object h)).append hamong
    · exact (hl.before (hl.left.endsIn h.spans) (hamong.endsIn hl.right hm)).1
  | .data h hrest =>
    have hamong := hrest.among hl.right
    rw [siblings_data fun m hm => ?_]
    · exact (DerivesAmong.single (.data h)).append hamong
    · exact (hl.before (hl.left.endsIn h.spans) (hamong.endsIn hl.right hm)).1

theorem DerivesNode.children {ts : List Lexeme} {m : Node} (h : DerivesNode ts m)
    (hl : LaidOut ts) : DerivesAmong ts m.children := by
  cases h with
  | object h =>
    cases h with
    | mk k opening word closing hname hcode hparts hts =>
      subst hts
      have hinner := hl.tail.right.tail.tail
      have hbehind := (hparts.among hinner.right.left).before [Punct.rbrace.lexeme closing]
      have hparts := (DerivesAmong.single (.block hcode)).append hbehind
      exact (((hparts.token _).token _).behind _).token _
  | @lone _ _ b h =>
    have hchildren : (Node.object ⟨"", b, [], [], b.span⟩).children = [.block b] :=
      congrArg _ siblings_nil
    exact hchildren ▸ .single (.block h)
  | block h =>
    cases h with
    | mk opening closing h hts =>
      subst hts
      exact (h.among.before _).token _
  | statement h => exact h.children
  | arm h =>
    cases h with
    | default k hbody hts =>
      subst hts
      exact (DerivesAmong.single (.block hbody)).token _
    | case k hvalue hbody hrest hts =>
      subst hts
      have hparts := (DerivesAmong.single (.literal hvalue)).append (.single (.block hbody))
      exact (hparts.token _).before _
  | expression h => exact h.children
  | data | literal | typedName | identifier => exact .nil _

/-! ## Main result -/

/-- A node whose span is exact, with its children one behind the other inside. -/
structure Node.PlacedIn (ts : List Lexeme) (n : Node) : Prop where
  /-- the span goes from the first to the last of the tokens that the node is read from -/
  exact : ∃ before mine after first last, ts = before ++ (mine ++ after) ∧ DerivesNode mine n ∧
    mine.head? = some first ∧ mine.getLast? = some last ∧
    n.span = ⟨first.span.start, last.span.stop⟩
  nonempty : n.span.start < n.span.stop
  inside : ∀ c ∈ n.children, n.span.start ≤ c.span.start ∧ c.span.stop ≤ n.span.stop
  apart : n.children.Pairwise fun c d => c.span.stop ≤ d.span.start

section Placed

variable {ts before mine after : List Lexeme} {root n : Node}

theorem DerivesNode.placedIn (h : DerivesNode mine n) (hl : LaidOut ts)
    (hts : ts = before ++ (mine ++ after)) : n.PlacedIn ts := by
  have hmine : LaidOut mine := (hts ▸ hl).right.left
  obtain ⟨hne, hspan⟩ := h.spans
  obtain ⟨first, last, hfirst, hlast, hends⟩ := hmine.spanOf_eq hne
  refine ⟨⟨before, mine, after, first, last, hts, h, hfirst, hlast, hspan.trans hends⟩, ?_, ?_,
    (h.children hmine).pairwise hmine⟩
  · rw [hspan, hends]
    have hlong := hmine.nonempty first (List.mem_of_head? hfirst)
    exact Nat.lt_of_lt_of_le hlong (hmine.le_getLast hlast (List.mem_of_head? hfirst))
  · intro c hc
    rw [hspan]
    exact hmine.inside ((h.children hmine).endsIn hmine hc)

/-- What is read from some tokens is made of nodes that are read from pieces of them. -/
theorem DerivesNode.exists_of_within (h : DerivesNode ts root) (hl : LaidOut ts)
    (hn : root.Within n) : ∃ before mine after, ts = before ++ (mine ++ after) ∧
      DerivesNode mine n := by
  induction hn with
  | refl => exact ⟨[], ts, [], by simp, h⟩
  | tail _ hchild ih =>
    obtain ⟨before, mine, after, hts, hnode⟩ := ih
    have hmine : LaidOut mine := (hts ▸ hl).right.left
    obtain ⟨behind, theirs, rest, rfl, hnode'⟩ := (hnode.children hmine).exists_of_mem hchild
    refine ⟨before ++ behind, theirs, rest ++ after, ?_, hnode'⟩
    rw [hts]
    simp only [List.append_assoc]

end Placed

theorem DerivesNode.all_placedIn {source : String} {ts : List Lexeme} {root : Node}
    (hlexes : Lexes source ts) (h : DerivesNode ts root) (n : Node) (hn : root.Within n) :
    n.PlacedIn ts := by
  obtain ⟨before, mine, after, hts, hnode⟩ := h.exists_of_within hlexes.laidOut hn
  exact hnode.placedIn hlexes.laidOut hts

/-- In a tree that is parsed, every node has the span from its first token to its last one; its
children lie inside, one behind the other. -/
theorem nodes_placed (names : NameTable) (source : String) :
    (∀ b names', parseBlock names source = .ok (b, names') →
      ∃ ts, Lexes source ts ∧ ∀ n, (Node.block b).Within n → n.PlacedIn ts) ∧
    ∀ o names', parseSource names source = .ok (o, names') →
      ∃ ts, Lexes source ts ∧ ∀ n, (Node.object o).Within n → n.PlacedIn ts := by
  constructor
  · intro b names' hparse
    obtain ⟨ts, hlexes, -, h⟩ := (Parser.parseBlock_iff names source b).mp ⟨names', hparse⟩
    exact ⟨ts, hlexes, DerivesNode.all_placedIn hlexes (.block h)⟩
  · intro o names' hparse
    obtain ⟨ts, hlexes, -, h⟩ := (Parser.parseSource_iff names source o).mp ⟨names', hparse⟩
    cases h with
    | block h => exact ⟨ts, hlexes, DerivesNode.all_placedIn hlexes (.lone h)⟩
    | object h => exact ⟨ts, hlexes, DerivesNode.all_placedIn hlexes (.object h)⟩

/-- An object with data in front of an inner object, and an annotated literal in its code. -/
def mixedSource : String :=
  "object \"A\" \x7b code \x7b let x: t := 1: t \x7d data \"d\" \"\"" ++
    "object \"B\" \x7b code \x7b \x7d \x7d \x7d"

theorem mixedSource_placed : ∃ o names', parseSource ⟨#[]⟩ mixedSource = .ok (o, names') ∧
    ∃ ts, Lexes mixedSource ts ∧ ∀ n, (Node.object o).Within n → n.PlacedIn ts := by
  have hparses : (parseSource ⟨#[]⟩ mixedSource).isOk = true := by decide +kernel
  cases hparse : parseSource ⟨#[]⟩ mixedSource with
  | ok x => exact ⟨x.1, x.2, rfl, (nodes_placed _ _).2 x.1 x.2 hparse⟩
  | error e =>
    rw [hparse] at hparses
    cases hparses

end Yul
