import Mathlib.Data.List.Induction
import Lisplet.Proofs.Windows
/-!
# Reading from left to right

A second way to read tokens: one pass with a stack of open forms, in which nothing is tried
twice. `Nesting.step` is what one token does; a token without a step is a defect. `Nesting.run`
reads up to the first defect. What a step can do is said once, in `step_cases`; the reading keeps
its shape when other expressions stand before it (`run_prepend`) and inside a form
(`run_within`).
-/

namespace Lisplet.Reader

/-! ## Open forms -/

/-- How much of a definition's header is read. -/
inductive Header where
  | keyword
  | name (name : String)
  | parameters (name : String) (names : List String)

/-- How many tokens of the definition are read, its `(` included. -/
def Header.length : Header → Nat
  | keyword => 2
  | name _ => 3
  | parameters _ names => 4 + names.length

/-! ## One token -/

/-- Where a reading stands. -/
structure Nesting where
  /-- The expressions that are read outside of all open forms. -/
  top : List Expr
  /-- The open forms, innermost first. -/
  forms : List Form
  /-- A definition inside all of them whose header is being read, with its `(`. -/
  header : Option (Token × Header)

namespace Nesting

def start : Nesting := ⟨[], [], none⟩

/-- The `(` of each open form, innermost first. -/
def openings (s : Nesting) : List Token :=
  match s.header with
  | some (opening, _) => opening :: s.forms.map Form.opening
  | none => s.forms.map Form.opening

/-- Adds an expression to the innermost open form, or outside of all. -/
def add (s : Nesting) (e : Expr) : Nesting :=
  match s.forms with
  | [] => { s with top := s.top ++ [e] }
  | f :: outer => { s with forms := f.extend [e] :: outer }

/-- Reads a token of the header `h` of the definition that `opening` opens. -/
def stepHeader (s : Nesting) (opening : Token) (h : Header) (t : Token) : Option Nesting :=
  match h, t.kind with
  | .keyword, .symbol => some { s with header := some (opening, .name t.text) }
  | .name name, .openParen => some { s with header := some (opening, .parameters name []) }
  | .parameters name names, .symbol =>
    some { s with header := some (opening, .parameters name (names ++ [t.text])) }
  | .parameters name names, .closeParen =>
    some { s with forms := .definition opening name names [] :: s.forms, header := none }
  | _, _ => none

/-- Reads a symbol where an expression may stand. Right after a `(` the keyword opens a
definition. -/
def stepSymbol (s : Nesting) (t : Token) : Nesting :=
  match s.forms with
  | .call opening [] :: outer =>
    if t.isKeyword then { s with forms := outer, header := some (opening, .keyword) }
    else s.add (.symbol t.text)
  | _ => s.add (.symbol t.text)

/-- Reads a `)`, which closes the innermost open form. -/
def stepClose (s : Nesting) : Option Nesting :=
  match s.forms with
  | [] => none
  | f :: outer => f.value?.map fun e => { s with forms := outer }.add e

/-- Reads one token; there is no answer if the token is a defect. -/
def step (s : Nesting) (t : Token) : Option Nesting :=
  match s.header with
  | some (opening, h) => s.stepHeader opening h t
  | none =>
    match t.kind with
    | .number => (Number.parse? t.text).map fun value => s.add (.number value)
    | .symbol => some (s.stepSymbol t)
    | .openParen => some { s with forms := .call t [] :: s.forms }
    | .closeParen => s.stepClose
    | .whitespace => none

/-! ### Steps into and out of a form -/

section Steps

variable {top : List Expr} {forms : List Form} {opening t : Token} {name : String}
  {names : List String}

theorem step_openParen (h : t.kind = .openParen) :
    step ⟨top, forms, none⟩ t = some ⟨top, .call t [] :: forms, none⟩ := by
  simp [step, h]

theorem step_closeParen {f : Form} {e : Expr} (h : t.kind = .closeParen) (hv : f.value? = some e) :
    step ⟨top, f :: forms, none⟩ t = some (add ⟨top, forms, none⟩ e) := by
  simp [step, h, stepClose, hv]

theorem kind_of_isKeyword (h : t.isKeyword) : t.kind = .symbol := by
  simp only [Token.isKeyword, Bool.and_eq_true, decide_eq_true_eq] at h
  exact h.1

theorem step_keyword (h : t.isKeyword) :
    step ⟨top, .call opening [] :: forms, none⟩ t =
      some ⟨top, forms, some (opening, .keyword)⟩ := by
  simp [step, kind_of_isKeyword h, stepSymbol, h]

theorem step_name (h : t.kind = .symbol) :
    step ⟨top, forms, some (opening, .keyword)⟩ t =
      some ⟨top, forms, some (opening, .name t.text)⟩ := by
  simp [step, stepHeader, h]

theorem step_name_of_ne (h : t.kind ≠ .symbol) :
    step ⟨top, forms, some (opening, .keyword)⟩ t = none := by
  cases hk : t.kind <;> simp_all [step, stepHeader]

theorem step_parametersOpening (h : t.kind = .openParen) :
    step ⟨top, forms, some (opening, .name name)⟩ t =
      some ⟨top, forms, some (opening, .parameters name [])⟩ := by
  simp [step, stepHeader, h]

theorem step_parametersOpening_of_ne (h : t.kind ≠ .openParen) :
    step ⟨top, forms, some (opening, .name name)⟩ t = none := by
  cases hk : t.kind <;> simp_all [step, stepHeader]

theorem step_parameter (h : t.kind = .symbol) :
    step ⟨top, forms, some (opening, .parameters name names)⟩ t =
      some ⟨top, forms, some (opening, .parameters name (names ++ [t.text]))⟩ := by
  simp [step, stepHeader, h]

theorem step_parametersClosing (h : t.kind = .closeParen) :
    step ⟨top, forms, some (opening, .parameters name names)⟩ t =
      some ⟨top, .definition opening name names [] :: forms, none⟩ := by
  simp [step, stepHeader, h]

theorem step_parameter_of_ne (hs : t.kind ≠ .symbol) (hc : t.kind ≠ .closeParen) :
    step ⟨top, forms, some (opening, .parameters name names)⟩ t = none := by
  cases hk : t.kind <;> simp_all [step, stepHeader]

end Steps

/-! ## Many tokens -/

end Nesting

inductive Outcome where
  | ended (s : Nesting)
  /-- The reading stands in `s` before the defect `t`. -/
  | stopped (s : Nesting) (t : Token) (after : List Token)

namespace Outcome

/-- Where the reading ends or stops. -/
def state : Outcome → Nesting
  | ended s | stopped s _ _ => s

def map (g : Nesting → Nesting) : Outcome → Outcome
  | ended s => ended (g s)
  | stopped s t after => stopped (g s) t after

end Outcome

namespace Nesting

/-- Reads tokens up to the first defect. -/
def run (s : Nesting) : List Token → Outcome
  | [] => .ended s
  | t :: rest =>
    match s.step t with
    | some next => next.run rest
    | none => .stopped s t rest

@[simp] theorem run_nil (s : Nesting) : s.run [] = .ended s := rfl

theorem run_cons_of_step {s next : Nesting} {t : Token} (h : s.step t = some next)
    (rest : List Token) : s.run (t :: rest) = next.run rest := by
  simp [run, h]

theorem run_cons_of_defect {s : Nesting} {t : Token} (h : s.step t = none) (rest : List Token) :
    s.run (t :: rest) = .stopped s t rest := by
  simp [run, h]

theorem run_append (s : Nesting) (ts us : List Token) :
    s.run (ts ++ us) = match s.run ts with
      | .ended next => next.run us
      | .stopped at_ t after => .stopped at_ t (after ++ us) := by
  induction ts generalizing s with
  | nil => rfl
  | cons t ts ih =>
    cases h : s.step t with
    | none => simp [run_cons_of_defect h]
    | some next => rw [List.cons_append, run_cons_of_step h, run_cons_of_step h, ih]

theorem run_append_of_ended {s next : Nesting} {ts : List Token} (h : s.run ts = .ended next)
    (us : List Token) : s.run (ts ++ us) = next.run us := by
  rw [run_append, h]

/-- A part of a reading without defect has no defect. -/
theorem run_of_append_ended {s last : Nesting} {ts us : List Token}
    (h : s.run (ts ++ us) = .ended last) :
    ∃ next, s.run ts = .ended next ∧ next.run us = .ended last := by
  rw [run_append] at h
  cases hr : s.run ts with
  | ended next => rw [hr] at h; exact ⟨next, rfl, h⟩
  | stopped at_ t after => rw [hr] at h; cases h

/-- The tokens before a defect are read without one. -/
theorem run_of_stopped {s at_ : Nesting} {ts after : List Token} {t : Token}
    (h : s.run ts = .stopped at_ t after) :
    ∃ before, ts = before ++ t :: after ∧ s.run before = .ended at_ ∧ at_.step t = none := by
  induction ts generalizing s with
  | nil => cases h
  | cons u ts ih =>
    cases hs : s.step u with
    | none =>
      rw [run_cons_of_defect hs] at h
      cases h
      exact ⟨[], rfl, rfl, hs⟩
    | some next =>
      rw [run_cons_of_step hs] at h
      obtain ⟨before, rfl, hb, hd⟩ := ih h
      exact ⟨u :: before, rfl, by rw [run_cons_of_step hs, hb], hd⟩

/-! ## The outermost open form -/

@[simp] theorem openings_add (s : Nesting) (e : Expr) : (s.add e).openings = s.openings := by
  obtain ⟨top, forms, header⟩ := s
  rcases forms with _ | ⟨f, outer⟩ <;> rcases header with _ | ⟨o, h⟩ <;> simp [add, openings]

@[simp] theorem header_add (s : Nesting) (e : Expr) : (s.add e).header = s.header := by
  unfold add
  split <;> rfl

/-- Once it holds an expression, a call is not mistaken for a definition. -/
theorem forms_add_ne (s : Nesting) (e : Expr) (o : Token) (outer : List Form) :
    (s.add e).forms ≠ .call o [] :: outer := by
  obtain ⟨top, forms, header⟩ := s
  rcases forms with _ | ⟨_ | _, outer⟩ <;> simp [add, Form.extend]

theorem forms_of_openings_nil {s : Nesting} (h : s.openings = []) :
    s.forms = [] ∧ s.header = none := by
  obtain ⟨top, forms, header⟩ := s
  rcases header with _ | ⟨o, h'⟩ <;> simp_all [openings]

/-- The expression that a `)` completes here, if it closes the only open form. -/
def completed? (s : Nesting) : Option Expr :=
  match s.forms, s.header with
  | [f], none => f.value?
  | _, _ => none

theorem step_of_completed {s : Nesting} {t : Token} {e : Expr} (hk : t.kind = .closeParen)
    (h : s.completed? = some e) : s.step t = some ⟨s.top ++ [e], [], none⟩ := by
  unfold completed? at h
  split at h
  · next f hf hh => simp [step, hh, hk, stepClose, hf, h, add]
  · cases h

theorem top_add_of_forms {s : Nesting} (h : s.forms ≠ []) (e : Expr) : (s.add e).top = s.top := by
  unfold add
  split
  · contradiction
  · rfl

theorem stepHeader_keeps {s next : Nesting} {opening t : Token} {hd : Header}
    (hh : s.header = some (opening, hd)) (h : s.stepHeader opening hd t = some next) :
    next.top = s.top ∧ next.openings = s.openings := by
  unfold stepHeader at h
  split at h <;> cases h <;> simp [openings, hh, Form.opening]

theorem stepSymbol_of_keyword {s : Nesting} {t opening : Token} {outer : List Form}
    (ht : t.isKeyword) (hf : s.forms = .call opening [] :: outer) :
    s.stepSymbol t = { s with forms := outer, header := some (opening, .keyword) } := by
  simp [stepSymbol, hf, ht]

theorem stepSymbol_eq_add {s : Nesting} {t : Token}
    (h : t.isKeyword → ∀ opening outer, s.forms ≠ .call opening [] :: outer) :
    s.stepSymbol t = s.add (.symbol t.text) := by
  unfold stepSymbol
  split
  · next opening outer hf => exact if_neg fun ht => h ht opening outer hf
  · rfl

/-- Right after a `(` the keyword opens a definition; else a symbol is an expression. -/
theorem stepSymbol_cases (s : Nesting) (t : Token) :
    (∃ opening outer, s.forms = .call opening [] :: outer ∧
      s.stepSymbol t = { s with forms := outer, header := some (opening, .keyword) }) ∨
    s.stepSymbol t = s.add (.symbol t.text) := by
  by_cases h : t.isKeyword ∧ ∃ opening outer, s.forms = .call opening [] :: outer
  · obtain ⟨ht, opening, outer, hf⟩ := h
    exact .inl ⟨opening, outer, hf, stepSymbol_of_keyword ht hf⟩
  · exact .inr (stepSymbol_eq_add fun ht opening outer hf => h ⟨ht, opening, outer, hf⟩)

/-- All that a token can do: go on with a header, be an expression, open a definition, open a form
or close one. -/
theorem step_cases {s next : Nesting} {t : Token} (h : s.step t = some next) :
    (∃ opening hd, s.header = some (opening, hd) ∧ s.stepHeader opening hd t = some next) ∨
    s.header = none ∧
      ((∃ e, next = s.add e) ∨
      (∃ opening outer, s.forms = .call opening [] :: outer ∧
        next = { s with forms := outer, header := some (opening, .keyword) }) ∨
      next = { s with forms := .call t [] :: s.forms } ∨
      ∃ f outer e, t.kind = .closeParen ∧ s.forms = f :: outer ∧ f.value? = some e ∧
        next = { s with forms := outer }.add e) := by
  unfold step at h
  split at h
  · next opening hd hh => exact .inl ⟨opening, hd, hh, h⟩
  · next hh =>
    refine .inr ⟨hh, ?_⟩
    split at h
    · obtain ⟨value, -, rfl⟩ := Option.map_eq_some_iff.1 h
      exact .inl ⟨_, rfl⟩
    · cases h
      rcases stepSymbol_cases s t with ⟨opening, outer, hf, heq⟩ | heq
      · exact .inr (.inl ⟨opening, outer, hf, heq⟩)
      · exact .inl ⟨_, heq⟩
    · cases h
      exact .inr (.inr (.inl rfl))
    · next hk =>
      unfold stepClose at h
      split at h
      · cases h
      · next f outer hf =>
        obtain ⟨e, hv, rfl⟩ := Option.map_eq_some_iff.1 h
        exact .inr (.inr (.inr ⟨f, outer, e, hk, hf, hv, rfl⟩))
    · cases h

/-- Inside a form, a token leaves what was read before the form and its `(` alone, unless it
completes the form. -/
theorem step_inside {s next : Nesting} {t o : Token} (ho : s.openings.getLast? = some o)
    (h : s.step t = some next) :
    (next.top = s.top ∧ next.openings.getLast? = some o) ∨
      ∃ e, t.kind = .closeParen ∧ s.completed? = some e ∧ next = ⟨s.top ++ [e], [], none⟩ := by
  rcases step_cases h with ⟨opening, hd, hh, hs⟩ | ⟨hh, h⟩
  · obtain ⟨htop, hop⟩ := stepHeader_keeps hh hs
    exact .inl ⟨htop, hop ▸ ho⟩
  have hop : s.openings = s.forms.map Form.opening := by simp [openings, hh]
  have hf : s.forms ≠ [] := by
    intro hf
    simp [hop, hf] at ho
  rcases h with ⟨e, rfl⟩ | ⟨opening, outer, hfs, rfl⟩ | rfl | ⟨f, outer, e, hk, hfs, hv, rfl⟩
  · exact .inl ⟨top_add_of_forms hf e, by rw [openings_add, ho]⟩
  · refine .inl ⟨rfl, ?_⟩
    rw [← ho, hop, hfs]
    rfl
  · refine .inl ⟨rfl, ?_⟩
    rw [hop] at ho
    simp [openings, hh, List.getLast?_cons, ho]
  · rcases outer with _ | ⟨g, outer⟩
    · exact .inr ⟨e, hk, by simp [completed?, hfs, hh, hv], by simp [add, hh]⟩
    · -- A form that is not outermost only becomes an expression of the next one.
      refine .inl ⟨top_add_of_forms (by simp) e, ?_⟩
      rw [openings_add, ← ho, hop, hfs]
      simp [openings, hh]

/-- Inside a form, either some token completes it or the reading stays in it to its end. -/
theorem run_inside {s : Nesting} {o : Token} (ho : s.openings.getLast? = some o)
    (ts : List Token) :
    (∃ inner closing after at_ e, ts = inner ++ closing :: after ∧ s.run inner = .ended at_ ∧
      at_.top = s.top ∧ closing.kind = .closeParen ∧ at_.completed? = some e) ∨
    ((s.run ts).state.top = s.top ∧ (s.run ts).state.openings.getLast? = some o) := by
  induction ts generalizing s with
  | nil => exact .inr ⟨rfl, ho⟩
  | cons t ts ih =>
    cases hs : s.step t with
    | none => rw [run_cons_of_defect hs]; exact .inr ⟨rfl, ho⟩
    | some next =>
      rcases step_inside ho hs with ⟨htop, hop⟩ | ⟨e, hk, hc, -⟩
      · rw [run_cons_of_step hs, ← htop]
        rcases ih hop with ⟨inner, closing, after, at_, e, rfl, hi, ht, hc⟩ | h
        · have hr : s.run (t :: inner) = .ended at_ := by rw [run_cons_of_step hs, hi]
          exact .inl ⟨t :: inner, closing, after, at_, e, rfl, hr, ht, hc⟩
        · exact .inr h
      · exact .inl ⟨[], t, ts, s, e, rfl, rfl, rfl, hk, hc⟩

/-! ## Where the open forms start -/

/-- Only a `(` opens a form without expressions. -/
theorem eq_of_step_forms {s next : Nesting} {t o : Token} {outer : List Form}
    (h : s.step t = some next) (hh : next.header = none) (hf : next.forms = .call o [] :: outer) :
    t = o := by
  rcases step_cases h with ⟨opening, hd, -, hs⟩ | ⟨-, h⟩
  · unfold stepHeader at hs
    split at hs <;> cases hs <;> simp_all
  rcases h with ⟨e, rfl⟩ | ⟨opening, outer, -, rfl⟩ | rfl | ⟨f, outer, e, -, -, -, rfl⟩
  · exact absurd hf (forms_add_ne _ _ _ _)
  · cases hh
  · cases hf
    rfl
  · exact absurd hf (forms_add_ne _ _ _ _)

/-- A header grows token by token from the keyword on, which stands right after the `(`. -/
theorem header_of_step {s next : Nesting} {t o : Token} {h : Header}
    (hs : s.step t = some next) (hh : next.header = some (o, h)) :
    (∃ h', s.header = some (o, h') ∧ h.length = h'.length + 1) ∨
      (h.length = 2 ∧ s.header = none ∧ ∃ outer, s.forms = .call o [] :: outer) := by
  rcases step_cases hs with ⟨opening, h', heq, hs⟩ | ⟨hn, hs⟩
  · refine .inl ⟨h', ?_⟩
    unfold stepHeader at hs
    split at hs <;> cases hs <;> cases hh <;> simp [heq, Header.length]
    omega
  rcases hs with ⟨e, rfl⟩ | ⟨opening, outer, hf, rfl⟩ | rfl | ⟨f, outer, e, -, -, -, rfl⟩
  · simp [hn] at hh
  · cases hh
    exact .inr ⟨rfl, hn, outer, hf⟩
  · simp [hn] at hh
  · simp [hn] at hh

/-- The `(` of a form whose first expression is still to come is the last token that was read, and
that of a header stands as far back as the header is long. -/
theorem run_start_at {ts : List Token} {s : Nesting} (hr : start.run ts = .ended s) :
    (∀ o h, s.header = some (o, h) → ∃ k, ts[k]? = some o ∧ k + h.length = ts.length) ∧
      (∀ o outer, s.header = none → s.forms = .call o [] :: outer → ts.getLast? = some o) := by
  -- By the last token, which is what the second part is about; the first part counts back from it.
  induction ts using List.reverseRecOn generalizing s with
  | nil =>
    cases hr
    constructor <;> intros <;> contradiction
  | append_singleton ts t ih =>
    obtain ⟨at_, hat, hlast⟩ := run_of_append_ended hr
    cases hs : at_.step t with
    | none => rw [run_cons_of_defect hs] at hlast; cases hlast
    | some next =>
      rw [run_cons_of_step hs, run_nil] at hlast
      cases hlast
      obtain ⟨ihh, ihf⟩ := ih hat
      refine ⟨fun o h hh => ?_, fun o outer hh hf => ?_⟩
      · rcases header_of_step hs hh with ⟨h', hh', hl⟩ | ⟨hl, hn, outer, hf⟩
        · obtain ⟨k, hk, hkl⟩ := ihh o h' hh'
          have hlt : k < ts.length := (List.getElem?_eq_some_iff.1 hk).1
          exact ⟨k, by rw [List.getElem?_append_left hlt, hk], by simp; omega⟩
        · have hlast := ihf o outer hn hf
          rw [List.getLast?_eq_getElem?] at hlast
          have hlt : ts.length - 1 < ts.length := (List.getElem?_eq_some_iff.1 hlast).1
          exact ⟨ts.length - 1, by rw [List.getElem?_append_left hlt, hlast], by simp; omega⟩
      · rw [eq_of_step_forms hs hh hf, List.getLast?_concat]

/-! ## A reading after other expressions -/

/-- The same reading with other expressions before it. -/
def prepend (es : List Expr) (s : Nesting) : Nesting := { s with top := es ++ s.top }

theorem prepend_add (es : List Expr) (s : Nesting) (e : Expr) :
    (s.prepend es).add e = (s.add e).prepend es := by
  obtain ⟨top, forms, header⟩ := s
  rcases forms with _ | ⟨f, outer⟩ <;> simp [prepend, add]

theorem step_prepend (es : List Expr) (s : Nesting) (t : Token) :
    (s.prepend es).step t = (s.step t).map (prepend es) := by
  unfold step
  cases hh : s.header with
  | some oh =>
    simp only [prepend, hh, stepHeader]
    split <;> rfl
  | none =>
    have hp : (s.prepend es).header = none := hh
    simp only [hp]
    split
    · simp only [Option.map_map, prepend_add]; rfl
    · simp only [stepSymbol, prepend_add, Option.map_some, Option.some.injEq]
      simp only [prepend]
      split
      · split <;> rfl
      · rfl
    · rfl
    · simp only [stepClose, prepend]
      split
      · rfl
      · next f outer _ =>
        rw [Option.map_map]
        congr 1
        funext e
        exact prepend_add es { s with forms := outer } e
    · rfl

theorem run_prepend (es : List Expr) (s : Nesting) (ts : List Token) :
    (s.prepend es).run ts = (s.run ts).map (prepend es) := by
  induction ts generalizing s with
  | nil => rfl
  | cons t ts ih =>
    cases hs : s.step t with
    | none =>
      rw [run_cons_of_defect hs, run_cons_of_defect (by rw [step_prepend, hs]; rfl)]
      rfl
    | some next =>
      rw [run_cons_of_step hs, run_cons_of_step (by rw [step_prepend, hs]; rfl), ih]

/-- No expression is taken back. -/
theorem top_run (s : Nesting) (ts : List Token) : ∃ es, (s.run ts).state.top = s.top ++ es := by
  have hr := run_prepend s.top ⟨[], s.forms, s.header⟩ ts
  rw [show prepend s.top ⟨[], s.forms, s.header⟩ = s by simp [prepend]] at hr
  rw [hr]
  cases run ⟨[], s.forms, s.header⟩ ts with
  | ended at_ => exact ⟨at_.top, rfl⟩
  | stopped at_ _ _ => exact ⟨at_.top, rfl⟩

/-! ## A reading inside a form -/

/-- The same reading inside of `f`, which takes the expressions read outside of all forms. -/
def within (f : Form) (s : Nesting) : Nesting := ⟨[], s.forms ++ [f.extend s.top], s.header⟩

theorem openings_within (f : Form) (s : Nesting) :
    (s.within f).openings = s.openings ++ [f.opening] := by
  obtain ⟨top, forms, header⟩ := s
  rcases header with _ | ⟨o, h⟩ <;> simp [within, openings]

theorem completed?_within (f : Form) (s : Nesting) :
    (s.within f).completed? = if s.openings = [] then (f.extend s.top).value? else none := by
  obtain ⟨top, forms, header⟩ := s
  rcases header with _ | ⟨o, h⟩ <;> rcases forms with _ | ⟨g, outer⟩ <;>
    simp [within, completed?, openings]

theorem within_add (f : Form) (s : Nesting) (e : Expr) :
    (s.within f).add e = (s.add e).within f := by
  obtain ⟨top, forms, header⟩ := s
  rcases forms with _ | ⟨g, outer⟩ <;> simp [within, add]

theorem stepHeader_within (f : Form) (s : Nesting) (opening : Token) (h : Header) (t : Token) :
    (s.within f).stepHeader opening h t = (s.stepHeader opening h t).map (within f) := by
  unfold stepHeader
  split <;> rfl

theorem stepSymbol_within {f : Form} {s : Nesting} {t : Token}
    (hk : s.forms = [] → t.isKeyword → ∀ o, f.extend s.top ≠ .call o []) :
    (s.within f).stepSymbol t = (s.stepSymbol t).within f := by
  by_cases h : t.isKeyword ∧ ∃ o outer, s.forms = .call o [] :: outer
  · obtain ⟨ht, o, outer, hf⟩ := h
    rw [stepSymbol_of_keyword ht hf, stepSymbol_of_keyword ht (by simp only [within, hf]; rfl)]
    rfl
  · rw [stepSymbol_eq_add fun ht o outer hf => h ⟨ht, o, outer, hf⟩, ← within_add]
    refine stepSymbol_eq_add fun ht o outer hf => ?_
    rcases hs : s.forms with _ | ⟨g, inner⟩
    · simp only [within, hs, List.nil_append, List.cons.injEq] at hf
      exact hk hs ht o hf.1
    · simp only [within, hs, List.cons_append, List.cons.injEq] at hf
      exact h ⟨ht, o, inner, by rw [hs, hf.1]⟩

theorem stepClose_within {f : Form} {s : Nesting} (hf : s.forms ≠ []) :
    (s.within f).stepClose = s.stepClose.map (within f) := by
  obtain ⟨g, outer, hfs⟩ := List.exists_cons_of_ne_nil hf
  simp only [stepClose, hfs, within, List.cons_append, Option.map_map]
  congr 1
  funext e
  exact within_add f { s with forms := outer } e

/-- A token of a reading does the same inside of `f`. Only a stray `)`, which closes `f`, and the
keyword right after the `(` of `f` do not. -/
theorem step_within {f : Form} {s : Nesting} {t : Token}
    (hc : s.openings = [] → t.kind ≠ .closeParen)
    (hk : s.openings = [] → t.isKeyword → ∀ o, f.extend s.top ≠ .call o []) :
    (s.within f).step t = (s.step t).map (within f) := by
  unfold step
  cases hh : s.header with
  | some oh => simp only [within, hh]; exact stepHeader_within f s oh.1 oh.2 t
  | none =>
    have ho : s.forms = [] → s.openings = [] := fun hf => by simp [openings, hh, hf]
    have hw : (s.within f).header = none := hh
    simp only [hw]
    split
    · simp only [Option.map_map, within_add]; rfl
    · rw [stepSymbol_within fun hf => hk (ho hf)]; rfl
    · rfl
    · next hkind => exact stepClose_within fun hf => hc (ho hf) hkind
    · rfl

/-- A step leads into a form or reads an expression. -/
theorem top_of_step {s next : Nesting} {t : Token} (h : s.step t = some next)
    (hn : next.openings = []) : next.top ≠ [] := by
  cases ho : s.openings.getLast? with
  | some o =>
    rcases step_inside ho h with ⟨-, hop⟩ | ⟨e, -, -, rfl⟩
    · simp [hn] at hop
    · simp
  | none =>
    obtain ⟨hf, hh⟩ := forms_of_openings_nil (List.getLast?_eq_none_iff.1 ho)
    rcases step_cases h with ⟨opening, hd, hs, -⟩ | ⟨-, h⟩
    · simp [hh] at hs
    rcases h with ⟨e, rfl⟩ | ⟨opening, outer, hfs, -⟩ | rfl | ⟨f, outer, e, -, hfs, -⟩
    · simp [add, hf]
    · simp [hf] at hfs
    · simp [openings, hh] at hn
    · simp [hf] at hfs

theorem run_within {f : Form} {s : Nesting} {ts : List Token}
    (hk : s.openings = [] → ∀ t ∈ ts.head?, t.isKeyword → ∀ o, f.extend s.top ≠ .call o []) :
    (s.within f).run ts = match s.run ts with
      | .ended at_ => .ended (at_.within f)
      | .stopped at_ t after => (at_.within f).run (t :: after) := by
  induction ts generalizing s with
  | nil => rfl
  | cons t ts ih =>
    cases hs : s.step t with
    | none => rw [run_cons_of_defect hs]
    | some next =>
      have hw : (s.within f).step t = some (next.within f) := by
        rw [step_within ?_ (fun ho => hk ho t rfl), hs]
        · rfl
        · intro ho hc
          obtain ⟨hf, hh⟩ := forms_of_openings_nil ho
          simp [step, hh, hc, stepClose, hf] at hs
      rw [run_cons_of_step hw, run_cons_of_step hs]
      refine ih fun hn _ _ _ o => ?_
      -- From here on `f` holds an expression, so no keyword can make it a definition.
      have := top_of_step hs hn
      cases f <;> simp_all [Form.extend]

/-- As long as `f` is not closed, the reading inside of `f` is the reading on its own. -/
theorem run_within_of_top {f : Form} {ts : List Token}
    (hk : ∀ t ∈ ts.head?, t.isKeyword → ∀ o, f ≠ .call o [])
    (ht : ((start.within f).run ts).state.top = []) :
    (∃ at_, start.run ts = .ended at_ ∧ (start.within f).run ts = .ended (at_.within f)) ∨
      ∃ at_ t after, start.run ts = .stopped at_ t after ∧
        (start.within f).run ts = .stopped (at_.within f) t after := by
  have hw : (start.within f).run ts = _ := run_within fun _ t hm hkey o => by
    rw [show start.top = [] from rfl, Form.extend_nil]
    exact hk t hm hkey o
  cases hr : start.run ts with
  | ended at_ => rw [hr] at hw; exact .inl ⟨at_, rfl, hw⟩
  | stopped at_ t after =>
    simp only [hr] at hw
    refine .inr ⟨at_, t, after, rfl, ?_⟩
    obtain ⟨-, -, -, hd⟩ := run_of_stopped hr
    cases hs : (at_.within f).step t with
    | none => rw [hw, run_cons_of_defect hs]
    | some next =>
      exfalso
      by_cases hc : at_.openings = [] ∧ t.kind = .closeParen
      · -- The `)` that is stray outside of `f` closes `f`, and `top` shows it from then on.
        obtain ⟨hf, hh⟩ := forms_of_openings_nil hc.1
        obtain ⟨es, hes⟩ := top_run next after
        rw [hw, run_cons_of_step hs, hes] at ht
        simp only [step, within, hh, hc.2, stepClose, hf, List.nil_append] at hs
        obtain ⟨e, -, rfl⟩ := Option.map_eq_some_iff.1 hs
        simp [add] at ht
      · rw [step_within (fun ho hk => hc ⟨ho, hk⟩) ?_, hd] at hs
        · cases hs
        · intro ho hkey
          obtain ⟨-, hh⟩ := forms_of_openings_nil ho
          simp only [Token.isKeyword, Bool.and_eq_true, decide_eq_true_eq] at hkey
          simp [step, hh, hkey.1] at hd

end Nesting

end Lisplet.Reader
