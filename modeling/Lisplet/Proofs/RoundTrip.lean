import Lisplet.Proofs.Grammar
import Lisplet.Proofs.Lexemes
/-!
# Writing expressions and reading them back

The written form of an expression is read as that expression just if the expression can come from a
source text at all: `load_text_iff`. What a source text can say is decided by `Expr.expressible`.
-/

namespace Lisplet

/-! ## What a source text can say -/

namespace Expr

mutual

/-- Symbols, functions and parameters are called by names, no call is mistaken for a definition,
and there is no value that only a run can make. -/
def expressible : Expr → Bool
  | number _ => true
  | symbol name => Token.isName name
  | call callee arguments =>
    decide (callee ≠ symbol Token.keyword) && callee.expressible && allExpressible arguments
  | function name parameters body =>
    Token.isName name && parameters.all Token.isName && body.expressible
  | builtIn _ | void => false

def allExpressible : List Expr → Bool
  | [] => true
  | e :: es => e.expressible && allExpressible es

end

theorem allExpressible_iff {es : List Expr} :
    allExpressible es = true ↔ ∀ e ∈ es, e.expressible = true := by
  induction es with
  | nil => simp [allExpressible]
  | cons e es ih => simp [allExpressible, ih]

/-! ## Written forms -/

theorem text_call (callee : Expr) (arguments : List Expr) :
    (call callee arguments).text = "(" ++ callee.text ++ argumentsText arguments ++ ")" := rfl

theorem text_function (name : String) (parameters : List String) (body : Expr) :
    (function name parameters body).text =
      "(function " ++ name ++ " (" ++ " ".intercalate parameters ++ ") " ++ body.text ++ ")" := rfl

theorem argumentsText_cons (e : Expr) (es : List Expr) :
    argumentsText (e :: es) = " " ++ e.text ++ argumentsText es := rfl

end Expr

namespace Reader

open Token

/-! ## What is read can be said -/

/-- The keyword starts no expression but the symbol of that name. -/
theorem Derives.isKeyword_iff {t : Token} {ts : List Token} {e : Expr} (h : Derives (t :: ts) e) :
    t.isKeyword = true ↔ e = .symbol keyword := by
  cases h with
  | number hk => simp [isKeyword, hk]
  | symbol hk => simp [isKeyword, hk]
  | call ho => simp [isKeyword, ho]
  | function ho => simp [isKeyword, ho]

theorem DerivesAll.isKeyword_iff {t : Token} {ts : List Token} {e : Expr} {es : List Expr}
    (h : DerivesAll (t :: ts) (e :: es)) : t.isKeyword = true ↔ e = .symbol keyword := by
  generalize hw : t :: ts = all at h
  cases h with
  | cons hd hs =>
    obtain ⟨u, us, rfl⟩ := List.exists_cons_of_ne_nil hd.ne_nil
    cases hw
    exact hd.isKeyword_iff

mutual

/-- From tokens whose symbols are names, only expressions that can be said are derived. -/
theorem Derives.expressible : {ts : List Token} → {e : Expr} → Derives ts e →
    (∀ t ∈ ts, t.kind = .symbol → isName t.text = true) → e.expressible = true
  | _, _, .number .., _ => rfl
  | _, _, .symbol hk, hn => hn _ (List.mem_singleton_self _) hk
  | _, _, .call ho hs hi hc, hn => by
    have hall := hi.expressible fun t ht =>
      hn t (List.mem_cons_of_mem _ (List.mem_append_left _ ht))
    rw [Expr.allExpressible, Bool.and_eq_true] at hall
    rw [Expr.expressible, hall.1, hall.2, Bool.and_true, Bool.and_true, decide_eq_true_eq]
    intro he
    rw [hi.isKeyword_iff.2 he] at hs
    cases hs
  | _, _, .function ho hk hname hpo hp hpc hb hc, hn => by
    have hnn := hn _ (by simp) hname
    have hbody := hb.expressible fun t ht => hn t (by simp [ht])
    rw [Expr.expressible, hnn, hbody, Bool.true_and, Bool.and_true, List.all_map, List.all_eq_true]
    intro p hpm
    exact hn p (by simp [hpm]) (hp p hpm)

theorem DerivesAll.expressible : {ts : List Token} → {es : List Expr} → DerivesAll ts es →
    (∀ t ∈ ts, t.kind = .symbol → isName t.text = true) → Expr.allExpressible es = true
  | _, _, .nil, _ => rfl
  | _, _, .cons h hs, hn => by
    have hfirst := h.expressible fun t ht => hn t (List.mem_append_left _ ht)
    have hrest := hs.expressible fun t ht => hn t (List.mem_append_right _ ht)
    rw [Expr.allExpressible, hfirst, hrest, Bool.and_true]

end

/-! ## What can be said is read -/

/-- Wherever the text stands, its tokens are as `P` says. -/
def Scans (text : List Char) (P : List Token → Prop) : Prop :=
  ∀ line, ∃ ts, scan line text = .ok ts ∧ P ts

section Scans

variable {text rest : List Char} {P Q : List Token → Prop}

theorem Scans.append (ht : Scans text P) (hb : Breaks rest) (hr : Scans rest Q) :
    Scans (text ++ rest) fun ts => ∃ us vs, ts = us ++ vs ∧ P us ∧ Q vs := by
  intro line
  obtain ⟨us, hus, hp⟩ := ht line
  obtain ⟨vs, hvs, hq⟩ := hr (line + text.count '\n')
  exact ⟨us ++ vs, scan_append_of_ok hb hus hvs, us, vs, rfl, hp, hq⟩

theorem Scans.paren {c : Char} {kind : TokenKind} (hc : TokenKind.ofFirst? c = some kind)
    (hk : kind = .openParen ∨ kind = .closeParen) (hr : Scans rest Q) :
    Scans (c :: rest) fun ts => ∃ t us, ts = t :: us ∧ t.kind = kind ∧ Q us := by
  intro line
  obtain ⟨us, hus, hq⟩ := hr line
  refine ⟨⟨kind, "", line⟩ :: us, ?_, _, us, rfl, rfl, hq⟩
  rw [scan_paren hc hk, hus]
  rfl

theorem Scans.openParen (hr : Scans rest Q) :
    Scans ('(' :: rest) fun ts => ∃ t us, ts = t :: us ∧ t.kind = .openParen ∧ Q us :=
  hr.paren TokenKind.ofFirst?_paren.1 (.inl rfl)

theorem Scans.closeParen (hr : Scans rest Q) :
    Scans (')' :: rest) fun ts => ∃ t us, ts = t :: us ∧ t.kind = .closeParen ∧ Q us :=
  hr.paren TokenKind.ofFirst?_paren.2 (.inr rfl)

theorem Scans.space (hr : Scans rest Q) : Scans (' ' :: rest) Q := by
  intro line
  rw [scan_blank (by decide)]
  exact hr _

theorem scans_nil : Scans [] (· = []) := fun line => ⟨[], scan_nil line, rfl⟩

theorem scans_name {name : String} (h : isName name = true) :
    Scans name.toList fun ts => ∃ t, ts = [t] ∧ t.kind = .symbol ∧ t.text = name :=
  fun line => ⟨_, scan_name h line, _, rfl, rfl, rfl⟩

theorem breaks_space (rest : List Char) : Breaks (' ' :: rest) :=
  breaks_cons (by decide +kernel) rest

theorem breaks_closeParen (rest : List Char) : Breaks (')' :: rest) :=
  breaks_cons (by decide +kernel) rest

end Scans

theorem scans_parameters {names : List String} (h : names.all isName = true) :
    Scans (" ".intercalate names).toList fun ts =>
      (∀ p ∈ ts, p.kind = .symbol) ∧ ts.map Token.text = names := by
  induction names with
  | nil =>
    rw [String.intercalate_nil]
    exact fun line => ⟨[], scan_nil line, by simp⟩
  | cons name names ih =>
    rw [List.all_cons, Bool.and_eq_true] at h
    rcases names with _ | ⟨second, names⟩
    · rw [String.intercalate_singleton]
      intro line
      exact ⟨_, scan_name h.1 line, by simp⟩
    · rw [String.intercalate_cons_cons, String.toList_append, String.toList_append,
        List.append_assoc]
      intro line
      obtain ⟨_, hs, _, ts, rfl, ⟨t, rfl, hk, rfl⟩, hks, hts⟩ :=
        (scans_name h.1).append (breaks_space _) (ih h.2).space line
      refine ⟨_, hs, ?_, by simp [hts]⟩
      simpa [hk] using hks

theorem breaks_argumentsText (arguments : List Expr) {rest : List Char} (h : Breaks rest) :
    Breaks ((Expr.argumentsText arguments).toList ++ rest) := by
  cases arguments with
  | nil => exact h
  | cons e es =>
    simp only [Expr.argumentsText_cons, String.toList_append, List.append_assoc]
    exact breaks_space _

theorem isName_keyword : isName keyword = true := by decide +kernel

theorem scans_call {callee : Expr} {arguments : List Expr} (hkey : callee ≠ .symbol keyword)
    (hcallee : Scans callee.text.toList (Derives · callee))
    (hargs : Scans (Expr.argumentsText arguments).toList (DerivesAll · arguments)) :
    Scans (Expr.call callee arguments).text.toList (Derives · (.call callee arguments)) := by
  have htext : (Expr.call callee arguments).text.toList =
      '(' :: (callee.text.toList ++ ((Expr.argumentsText arguments).toList ++ [')'])) := by
    simp [Expr.text_call]
  rw [htext]
  intro line
  obtain ⟨_, hs, opening, _, rfl, ho, ts, _, rfl, hd, us, _, rfl, hds, closing, _, rfl, hc, rfl⟩ :=
    (hcallee.append (breaks_argumentsText arguments (breaks_closeParen []))
      (hargs.append (breaks_closeParen []) scans_nil.closeParen)).openParen line
  obtain ⟨second, rest, rfl⟩ := List.exists_cons_of_ne_nil hd.ne_nil
  have hsecond : second.isKeyword = false := by
    rw [Bool.eq_false_iff]
    intro hk
    exact hkey (hd.isKeyword_iff.1 hk)
  refine ⟨_, hs, ?_⟩
  rw [← List.append_assoc]
  exact .call ho hsecond (.cons hd hds) hc

theorem scans_function {name : String} {parameters : List String} {body : Expr}
    (hname : isName name = true) (hparams : parameters.all isName = true)
    (hbody : Scans body.text.toList (Derives · body)) :
    Scans (Expr.function name parameters body).text.toList
      (Derives · (.function name parameters body)) := by
  have htext : (Expr.function name parameters body).text.toList =
      '(' :: (keyword.toList ++ ' ' :: (name.toList ++ ' ' :: '(' ::
        ((" ".intercalate parameters).toList ++ ')' :: ' ' :: (body.text.toList ++ [')'])))) := by
    simp only [Expr.text_function, String.toList_append, List.append_assoc]
    rfl
  rw [htext]
  intro line
  -- Every name is followed by a space or a `)`, so no two lexemes run together.
  have htail := (scans_parameters hparams).append (breaks_closeParen _)
    (hbody.append (breaks_closeParen []) scans_nil.closeParen).space.closeParen
  have hhead := (scans_name isName_keyword).append (breaks_space _)
    ((scans_name hname).append (breaks_space _) htail.openParen.space).space
  obtain ⟨_, hs, opening, _, rfl, ho, _, _, rfl, ⟨k, rfl, hk, hkt⟩, _, _, rfl, ⟨n, rfl, hn, rfl⟩,
    o, _, rfl, hpo, params, _, rfl, ⟨hp, rfl⟩, c, _, rfl, hpc, ts, _, rfl, hd, closing, _, rfl,
    hc, rfl⟩ := hhead.openParen line
  have hkey : k.isKeyword = true := by
    rw [isKeyword, hk, hkt]
    rfl
  exact ⟨_, hs, .function ho hkey hn hpo hp hpc hd hc⟩

mutual

/-- The written form is scanned as tokens of the expression. -/
theorem scans_text : (e : Expr) → e.expressible = true → Scans e.text.toList (Derives · e)
  | .number value, _ => fun line =>
    ⟨_, scan_number value line, .number rfl (Number.parse?_text value)⟩
  | .symbol _, h => fun line => ⟨_, scan_name h line, .symbol rfl⟩
  | .call callee arguments, h => by
    rw [Expr.expressible, Bool.and_eq_true, Bool.and_eq_true, decide_eq_true_eq] at h
    exact scans_call h.1.1 (scans_text callee h.1.2) (scans_arguments arguments h.2)
  | .function name parameters body, h => by
    rw [Expr.expressible, Bool.and_eq_true, Bool.and_eq_true] at h
    exact scans_function h.1.1 h.1.2 (scans_text body h.2)
  | .builtIn _, h | .void, h => by cases h

theorem scans_arguments : (es : List Expr) → Expr.allExpressible es = true →
    Scans (Expr.argumentsText es).toList (DerivesAll · es)
  | [], _ => fun line => ⟨[], scan_nil line, .nil⟩
  | e :: es, h => by
    rw [Expr.allExpressible, Bool.and_eq_true] at h
    have htext : (Expr.argumentsText (e :: es)).toList =
        ' ' :: (e.text.toList ++ (Expr.argumentsText es).toList) := by
      simp [Expr.argumentsText_cons]
    have hb : Breaks (Expr.argumentsText es).toList := by
      have := breaks_argumentsText es breaks_nil
      rwa [List.append_nil] at this
    rw [htext]
    intro line
    obtain ⟨_, hs, ts, us, rfl, hd, hds⟩ :=
      ((scans_text e h.1).append hb (scans_arguments es h.2)).space line
    exact ⟨_, hs, .cons hd hds⟩

end

/-! ## Programs -/

theorem readProgram_of_ne_nil {tokens : List Token} (h : tokens ≠ []) :
    readProgram tokens = readAll tokens := by
  cases tokens with
  | nil => contradiction
  | cons t ts => rfl

theorem load_eq_ok_iff {sources : List String} {program : Program} :
    load sources = .ok program ↔
      program ≠ [] ∧ ∃ tokens, tokenizeAll sources = .ok tokens ∧ DerivesAll tokens program := by
  constructor
  · intro h
    unfold load at h
    cases ht : tokenizeAll sources with
    | error e =>
      rw [ht] at h
      cases h
    | ok tokens =>
      rw [ht] at h
      rcases tokens with _ | ⟨t, ts⟩
      · cases h
      have hd : DerivesAll (t :: ts) program := readAll_eq_ok_iff.1 h
      refine ⟨?_, _, rfl, hd⟩
      intro hp
      cases hd.eq_nil_iff.2 hp
  · rintro ⟨hne, tokens, ht, hd⟩
    have hts : tokens ≠ [] := fun h => hne (hd.eq_nil_iff.1 h)
    unfold load
    rw [ht]
    exact (readProgram_of_ne_nil hts).trans (readAll_eq_ok_iff.2 hd)

theorem tokenizeAll_text {es : List Expr} (h : ∀ e ∈ es, e.expressible = true) :
    ∃ tokens, tokenizeAll (es.map Expr.text) = .ok tokens ∧ DerivesAll tokens es := by
  induction es with
  | nil => exact ⟨[], tokenizeAll_nil, .nil⟩
  | cons e es ih =>
    obtain ⟨us, hus, hds⟩ := ih fun e' he => h e' (List.mem_cons_of_mem _ he)
    obtain ⟨ts, hts, hd⟩ := scans_text e (h e List.mem_cons_self) 1
    refine ⟨ts ++ us, ?_, .cons hd hds⟩
    have ht : tokenize e.text = .ok ts := hts
    rw [List.map_cons, tokenizeAll_cons, ht, hus]
    rfl

theorem load_text {es : List Expr} (hne : es ≠ []) (h : ∀ e ∈ es, e.expressible = true) :
    load (es.map Expr.text) = .ok es := by
  obtain ⟨tokens, ht, hd⟩ := tokenizeAll_text h
  exact load_eq_ok_iff.2 ⟨hne, tokens, ht, hd⟩

theorem expressible_of_load {sources : List String} {program : Program}
    (h : load sources = .ok program) : ∀ e ∈ program, e.expressible = true := by
  obtain ⟨-, tokens, ht, hd⟩ := load_eq_ok_iff.1 h
  exact Expr.allExpressible_iff.1 (hd.expressible (isName_of_tokenizeAll ht))

/-- Writing and reading are inverse to each other, on exactly the expressions that a source text
can say; and a program that was read is made of such expressions. -/
theorem load_text_iff :
    (∀ es : List Expr, es ≠ [] →
      (load (es.map Expr.text) = .ok es ↔ ∀ e ∈ es, e.expressible = true)) ∧
    ∀ (sources : List String) (program : Program), load sources = .ok program →
      (∀ e ∈ program, e.expressible = true) ∧ load (program.map Expr.text) = .ok program := by
  constructor
  · intro es hne
    exact ⟨expressible_of_load, load_text hne⟩
  · intro sources program h
    have he := expressible_of_load h
    have hne : program ≠ [] := (load_eq_ok_iff.1 h).1
    exact ⟨he, load_text hne he⟩

/-- `(function decrement (x) (add x -1))`, with the keyword as an argument besides. -/
def decrement : Expr :=
  .function "decrement" ["x"]
    (.call (.symbol "add") [.symbol "x", .number ⟨-1, by decide, by decide⟩, .symbol keyword])

/-- A definition comes back, and a call of the keyword does not. -/
theorem load_text_decrement :
    load ([decrement, decrement].map Expr.text) = .ok [decrement, decrement] ∧
      (∀ e ∈ [decrement, decrement], e.expressible = true) ∧
      load ([.call (.symbol keyword) []].map Expr.text) ≠ .ok [.call (.symbol keyword) []] := by
  have he : decrement.expressible = true := by decide +kernel
  have hkey : (Expr.call (.symbol keyword) []).expressible = false := by decide +kernel
  have hload := (load_text_iff.1 [decrement, decrement] (by simp)).2 (by simp [he])
  refine ⟨hload, (load_text_iff.2 _ _ hload).1, ?_⟩
  intro h
  have := (load_text_iff.1 _ (by simp)).1 h _ List.mem_cons_self
  rw [hkey] at this
  cases this

end Reader

end Lisplet
