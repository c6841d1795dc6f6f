import Mathlib.Data.List.Forall2
import Lisplet.Proofs.Classification
/-!
# The grammar of the reader

The reader searches windows; the grammar only says what an expression is. Both agree on every
list of tokens: `readAll_eq_ok_iff`. Each list has at most one derivation, because no expression
starts another one.
-/

namespace Lisplet.Reader

open Nesting

mutual

/-- The tokens are one expression. -/
inductive Derives : List Token → Expr → Prop
  | number {t : Token} {value : Number} (hk : t.kind = .number)
      (hv : Number.parse? t.text = some value) : Derives [t] (.number value)
  | symbol {t : Token} (hk : t.kind = .symbol) : Derives [t] (.symbol t.text)
  /-- The token after the `(` is not the keyword. -/
  | call {opening second closing : Token} {rest : List Token} {callee : Expr}
      {arguments : List Expr} (ho : opening.kind = .openParen) (hs : second.isKeyword = false)
      (hi : DerivesAll (second :: rest) (callee :: arguments)) (hc : closing.kind = .closeParen) :
      Derives (opening :: (second :: rest ++ [closing])) (.call callee arguments)
  | function {opening keyword name paramsOpening paramsClosing closing : Token}
      {params bodyTokens : List Token} {body : Expr} (ho : opening.kind = .openParen)
      (hk : keyword.isKeyword) (hn : name.kind = .symbol) (hpo : paramsOpening.kind = .openParen)
      (hp : ∀ p ∈ params, p.kind = .symbol) (hpc : paramsClosing.kind = .closeParen)
      (hb : Derives bodyTokens body) (hc : closing.kind = .closeParen) :
      Derives (opening :: keyword :: name :: paramsOpening ::
          (params ++ paramsClosing :: (bodyTokens ++ [closing])))
        (.function name.text (params.map Token.text) body)

/-- The tokens are these expressions in a row. -/
inductive DerivesAll : List Token → List Expr → Prop
  | nil : DerivesAll [] []
  | cons {ts us : List Token} {e : Expr} {es : List Expr} (h : Derives ts e)
      (hs : DerivesAll us es) : DerivesAll (ts ++ us) (e :: es)

end

theorem Derives.ne_nil {ts : List Token} {e : Expr} (h : Derives ts e) : ts ≠ [] := by
  cases h <;> simp

theorem DerivesAll.eq_nil_iff {ts : List Token} {es : List Expr} (h : DerivesAll ts es) :
    ts = [] ↔ es = [] := by
  cases h with
  | nil => simp
  | cons hd hs => simp [hd.ne_nil]

/-- A list of expressions is derived piece by piece. -/
theorem derivesAll_iff {ts : List Token} {es : List Expr} :
    DerivesAll ts es ↔
      ∃ pieces : List (List Token), pieces.flatten = ts ∧ List.Forall₂ Derives pieces es := by
  constructor
  · intro h
    induction es generalizing ts with
    | nil => cases h; exact ⟨[], rfl, .nil⟩
    | cons e es ih =>
      cases h with
      | cons h hs =>
        obtain ⟨pieces, rfl, hp⟩ := ih hs
        exact ⟨_ :: pieces, by simp, .cons h hp⟩
  · rintro ⟨pieces, rfl, hp⟩
    induction hp with
    | nil => exact .nil
    | cons h _ ih => exact .cons h ih

/-! ## What is read is derived -/

theorem exists_of_parameters {line : Nat} {ts body : List Token} {names : List String}
    (h : parameters line ts = .ok (some (names, body))) :
    ∃ params closing, ts = params ++ closing :: body ∧ (∀ p ∈ params, p.kind = .symbol) ∧
      params.map Token.text = names ∧ closing.kind = .closeParen := by
  induction ts generalizing names with
  | nil => cases h
  | cons t ts ih =>
    unfold parameters at h
    split at h
    · next hk =>
      cases h
      exact ⟨[], t, rfl, by simp, rfl, hk⟩
    · next hk =>
      cases hp : parameters line ts with
      | error e => rw [hp] at h; cases h
      | ok found =>
        rw [hp] at h
        rcases found with _ | ⟨names', body'⟩
        · cases h
        · cases h
          obtain ⟨params, closing, rfl, hs, rfl, hc⟩ := ih hp
          exact ⟨t :: params, closing, rfl, by simpa [hk] using hs, rfl, hc⟩
    · cases h

theorem exists_of_enclose {read : Reading} {f : Form} {inner : List Token} {e : Expr}
    (h : enclose read f inner = .ok (some e)) :
    ∃ es, read inner = .ok es ∧ (f.extend es).value? = some e := by
  unfold enclose inside at h
  cases hr : read inner with
  | ok es =>
    rw [hr] at h
    exact ⟨es, rfl, Except.ok.inj h⟩
  | error err =>
    rw [hr] at h
    dsimp only at h
    by_cases ho : err.isOpen
    · rw [if_pos ho] at h; cases h
    · rw [if_neg ho] at h; cases h

theorem derives_of_definition {read : Reading} {opening keyword closing : Token}
    {tail : List Token} {e : Expr}
    (hread : ∀ inner, inner.length < tail.length → ∀ es, read inner = .ok es → DerivesAll inner es)
    (ho : opening.kind = .openParen) (hk : keyword.isKeyword) (hc : closing.kind = .closeParen)
    (h : definition read opening.line tail = .ok (some e)) :
    Derives (opening :: keyword :: (tail ++ [closing])) e := by
  rcases Nat.lt_or_ge tail.length 4 with hl | hl
  · rw [definition_of_short hl] at h
    cases h
  obtain ⟨name, o, rest, rfl⟩ : ∃ name o rest, tail = name :: o :: rest := by
    match tail, hl with
    | name :: o :: rest, _ => exact ⟨name, o, rest, rfl⟩
  have hr : 2 ≤ rest.length := by simpa using hl
  by_cases hh : name.kind = .symbol ∧ o.kind = .openParen
  · rw [definition_of_parameters hr hh.1 hh.2 opening] at h
    cases hp : parameters opening.line rest with
    | error err => rw [hp] at h; cases h
    | ok found =>
      rcases found with _ | ⟨names, body⟩
      · rw [hp] at h; cases h
      · rw [hp] at h
        have hlen := length_of_parameters hp
        obtain ⟨es, hb, hv⟩ := exists_of_enclose h
        obtain ⟨params, pc, rfl, hs, rfl, hpc⟩ := exists_of_parameters hp
        have hall := hread body (by simp only [List.length_cons]; omega) es hb
        rcases es with _ | ⟨b, _ | ⟨b', es⟩⟩
        · cases hv
        · cases hv
          cases hall with
          | cons hd hnil =>
            cases hnil
            rw [List.append_nil]
            simpa using Derives.function ho hk hh.1 hh.2 hs hpc hd hc
        · cases hv
  · rw [definition_of_header hr hh] at h
    cases h

/-- A window is what the grammar says, if what stands inside of it is. -/
theorem derives_of_matchWindow {read : Reading} {window : List Token} {e : Expr}
    (hread : ∀ inner, inner.length < window.length →
      ∀ es, read inner = .ok es → DerivesAll inner es)
    (h : matchWindow read window = .ok (some e)) : Derives window e := by
  rcases window with _ | ⟨first, rest⟩
  · cases h
  rcases List.eq_nil_or_concat rest with rfl | ⟨inner, last, rfl⟩
  · simp only [matchWindow, atom] at h
    split at h
    · next hk =>
      split at h
      · next value hv => cases h; exact .number hk hv
      · cases h
    · next hk => cases h; exact .symbol hk
    · cases h
  rw [List.concat_eq_append] at h hread ⊢
  by_cases hf : first.kind = .openParen
  · rw [matchWindow_append hf] at h
    split at h
    · next hc =>
      rcases inner with _ | ⟨head, tail⟩
      · cases h
      rw [form] at h
      split at h
      · next hk =>
        refine derives_of_definition (fun us hu => hread us ?_) hf hk hc h
        simp only [List.length_cons, List.length_append]
        omega
      · next hk =>
        rw [call_eq_enclose first] at h
        obtain ⟨es, hr, hv⟩ := exists_of_enclose h
        have hall := hread (head :: tail) (by simp) es hr
        rcases es with _ | ⟨callee, arguments⟩
        · cases hv
        · cases hv
          exact .call hf (by simpa using hk) hall hc
    · cases h
  · rw [matchWindow_of_first hf (by simp)] at h
    cases h

theorem derivesAll_of_readAll {tokens : List Token} {es : List Expr}
    (h : readAll tokens = .ok es) : DerivesAll tokens es := by
  induction hn : tokens.length using Nat.strongRecOn generalizing tokens es with
  | _ n ih =>
    subst hn
    rcases tokens with _ | ⟨first, rest⟩
    · cases h
      exact .nil
    obtain ⟨k, r, hw⟩ : ∃ k r, widen readAll first rest 0 = (k, r) := ⟨_, _, rfl⟩
    cases r with
    | error e => rw [readAll_cons_of_error hw] at h; cases h
    | ok e =>
      rw [readAll_cons_of_ok hw] at h
      cases hd : readAll (rest.drop k) with
      | error err => rw [hd] at h; cases h
      | ok es' =>
        rw [hd] at h
        cases h
        have hwin : Derives (first :: rest.take k) e := by
          refine derives_of_matchWindow ?_ (matchWindow_of_widen hw)
          intro inner hi es hr
          refine ih inner.length (Nat.lt_of_lt_of_le hi ?_) hr rfl
          simp only [List.length_cons, List.length_take]
          omega
        have hrest : DerivesAll (rest.drop k) es' := by
          refine ih _ ?_ hd rfl
          simp only [List.length_drop, List.length_cons]
          omega
        simpa using DerivesAll.cons hwin hrest

/-! ## What is derived is read -/

namespace Nesting

/-- Adds expressions to the innermost open form, or outside of all. -/
def addAll (s : Nesting) (es : List Expr) : Nesting :=
  match s.forms with
  | [] => { s with top := s.top ++ es }
  | f :: outer => { s with forms := f.extend es :: outer }

theorem addAll_nil (s : Nesting) : s.addAll [] = s := by
  obtain ⟨top, forms, header⟩ := s
  rcases forms with _ | ⟨f, outer⟩ <;> simp [addAll]

theorem addAll_cons (s : Nesting) (e : Expr) (es : List Expr) :
    s.addAll (e :: es) = (s.add e).addAll es := by
  obtain ⟨top, forms, header⟩ := s
  rcases forms with _ | ⟨f, outer⟩ <;> simp [addAll, add]

theorem run_names {top : List Expr} {forms : List Form} {opening : Token} {name : String}
    {names : List String} {params : List Token} (hp : ∀ p ∈ params, p.kind = .symbol) :
    run ⟨top, forms, some (opening, .parameters name names)⟩ params =
      .ended ⟨top, forms, some (opening, .parameters name (names ++ params.map Token.text))⟩ := by
  induction params generalizing names with
  | nil => simp
  | cons p params ih =>
    rw [run_cons_of_step (step_parameter (hp p (by simp))), ih fun q hq => hp q (by simp [hq])]
    simp

/-- Right after a `(` the header of a definition opens its form. -/
theorem run_header {top : List Expr} {forms : List Form}
    {opening keyword name paramsOpening paramsClosing : Token} {params : List Token}
    (hk : keyword.isKeyword) (hn : name.kind = .symbol) (hpo : paramsOpening.kind = .openParen)
    (hp : ∀ p ∈ params, p.kind = .symbol) (hpc : paramsClosing.kind = .closeParen)
    (rest : List Token) :
    run ⟨top, .call opening [] :: forms, none⟩
        (keyword :: name :: paramsOpening :: (params ++ paramsClosing :: rest)) =
      run ⟨top, .definition opening name.text (params.map Token.text) [] :: forms, none⟩ rest := by
  rw [run_cons_of_step (step_keyword hk),
    run_cons_of_step (step_name hn),
    run_cons_of_step (step_parametersOpening hpo),
    run_append_of_ended (run_names hp),
    run_cons_of_step (step_parametersClosing hpc)]
  rfl

end Nesting

/-- In `s` the token would be taken for the keyword of a definition. -/
def Nesting.Fresh (s : Nesting) (tokens : List Token) : Prop :=
  ∃ t ∈ tokens.head?, t.isKeyword ∧ ∃ o outer, s.forms = .call o [] :: outer

mutual

/-- A derived expression is read from left to right. -/
theorem Derives.run {ts : List Token} {e : Expr} : Derives ts e → ∀ {s : Nesting},
    s.header = none → ¬ s.Fresh ts → s.run ts = .ended (s.add e)
  | .number hn hv, s, hh, _ => run_cons_of_step (by simp [step, hh, hn, hv]) []
  | .symbol hs, s, hh, hf => by
    refine run_cons_of_step ?_ []
    simp only [step, hh, hs]
    rw [stepSymbol_eq_add fun ht o outer ho => hf ⟨_, rfl, ht, o, outer, ho⟩]
  | .call ho hs hi hc, ⟨top, forms, _⟩, rfl, _ => by
    rw [run_cons_of_step (step_openParen ho),
      run_append_of_ended (hi.run rfl (by simp [Fresh, hs]))]
    exact run_cons_of_step (step_closeParen hc rfl) []
  | .function ho hk hn hpo hp hpc hb hc, ⟨top, forms, _⟩, rfl, _ => by
    rw [run_cons_of_step (step_openParen ho), run_header hk hn hpo hp hpc,
      run_append_of_ended (hb.run rfl (by simp [Fresh]))]
    exact run_cons_of_step (step_closeParen hc rfl) []

theorem DerivesAll.run {ts : List Token} {es : List Expr} : DerivesAll ts es →
    ∀ {s : Nesting}, s.header = none → ¬ s.Fresh ts → s.run ts = .ended (s.addAll es)
  | .nil, s, _, _ => by rw [addAll_nil]; rfl
  | @DerivesAll.cons ts _ e _ h hs, s, hh, hf => by
    -- The head of the first piece is the head of the whole.
    have hf' : ¬ s.Fresh ts := by
      rintro ⟨t, ht, hfresh⟩
      exact hf ⟨t, by simp_all [List.head?_append], hfresh⟩
    rw [run_append_of_ended (h.run hh hf'), addAll_cons]
    -- After one expression no form is empty, so the next one may well start with the keyword.
    refine hs.run (by rw [header_add, hh]) ?_
    rintro ⟨-, -, -, o, outer, ho⟩
    exact forms_add_ne s e o outer ho

end

theorem readAll_of_derivesAll {ts : List Token} {es : List Expr} (h : DerivesAll ts es) :
    readAll ts = .ok es := by
  rw [readAll_eq_verdict, h.run rfl (by simp [Fresh, start])]
  rfl

theorem readAll_eq_ok_iff {ts : List Token} {es : List Expr} :
    readAll ts = .ok es ↔ DerivesAll ts es :=
  ⟨derivesAll_of_readAll, readAll_of_derivesAll⟩

/-! ## One derivation -/

theorem Derives.all {ts : List Token} {e : Expr} (h : Derives ts e) : DerivesAll ts [e] := by
  simpa using DerivesAll.cons h .nil

/-- What is read first does not change how the rest is read. -/
theorem readAll_append {ts : List Token} {es : List Expr} (h : DerivesAll ts es)
    (us : List Token) : readAll (ts ++ us) = (es ++ ·) <$> readAll us := by
  have hr : start.run ts = .ended (start.prepend es) := by
    rw [h.run rfl (by simp [Fresh, start])]
    simp [addAll, start, prepend]
  rw [readAll_eq_verdict, readAll_eq_verdict us, run_append_of_ended hr,
    run_prepend, verdict_prepend]

/-- No expression starts another one. -/
theorem Derives.eq_of_append {ts us : List Token} {e e' : Expr} (h : Derives ts e)
    (h' : Derives (ts ++ us) e') : us = [] ∧ e = e' := by
  have hr := readAll_append h.all us
  rw [readAll_eq_ok_iff.2 h'.all] at hr
  cases hu : readAll us with
  | error err => rw [hu] at hr; cases hr
  | ok es =>
    rw [hu] at hr
    have he : [e'] = [e] ++ es := Except.ok.inj hr
    rw [List.singleton_append, List.cons.injEq] at he
    rw [← he.2] at hu
    cases readAll_eq_ok_iff.1 hu
    exact ⟨rfl, he.1.symm⟩

theorem Derives.append_inj {ts ts' us us' : List Token} {e e' : Expr} (h : Derives ts e)
    (h' : Derives ts' e') (heq : ts ++ us = ts' ++ us') : ts = ts' ∧ us = us' ∧ e = e' := by
  rcases List.append_eq_append_iff.1 heq with ⟨mid, rfl, hu⟩ | ⟨mid, rfl, hu⟩
  · obtain ⟨rfl, rfl⟩ := h.eq_of_append h'
    exact ⟨by simp, by simpa using hu, rfl⟩
  · obtain ⟨rfl, rfl⟩ := h'.eq_of_append h
    exact ⟨by simp, by simpa using hu.symm, rfl⟩

theorem pieces_unique {pieces pieces' : List (List Token)} {es es' : List Expr}
    (h : List.Forall₂ Derives pieces es) (h' : List.Forall₂ Derives pieces' es')
    (heq : pieces.flatten = pieces'.flatten) : pieces = pieces' ∧ es = es' := by
  induction h generalizing pieces' es' with
  | nil =>
    cases h' with
    | nil => exact ⟨rfl, rfl⟩
    | cons hd _ => exact absurd (List.append_eq_nil_iff.1 heq.symm).1 hd.ne_nil
  | cons hd _ ih =>
    cases h' with
    | nil => exact absurd (List.append_eq_nil_iff.1 heq).1 hd.ne_nil
    | cons hd' hs' =>
      obtain ⟨rfl, hrest, rfl⟩ := hd.append_inj hd' heq
      obtain ⟨rfl, rfl⟩ := ih hs' hrest
      exact ⟨rfl, rfl⟩

/-- The reader accepts exactly the lists that fall into derived pieces, and a list does so in one
way only. The inside of a form is such a list too, so a derivation is unique all the way down. -/
theorem readAll_eq_ok_iff_pieces (tokens : List Token) (expressions : List Expr) :
    (readAll tokens = .ok expressions ↔
      ∃ pieces : List (List Token), pieces.flatten = tokens ∧
        List.Forall₂ Derives pieces expressions) ∧
    ∀ (pieces pieces' : List (List Token)) (es es' : List Expr),
      pieces.flatten = tokens → List.Forall₂ Derives pieces es →
      pieces'.flatten = tokens → List.Forall₂ Derives pieces' es' →
      pieces = pieces' ∧ es = es' := by
  refine ⟨readAll_eq_ok_iff.trans derivesAll_iff, ?_⟩
  intro pieces pieces' es es' hf hp hf' hp'
  exact pieces_unique hp hp' (hf.trans hf'.symm)

/-- The tokens of `(f 1)`. -/
def callTokens : List Token :=
  [⟨.openParen, "", 1⟩, ⟨.symbol, "f", 1⟩, ⟨.number, "1", 1⟩, ⟨.closeParen, "", 1⟩]

theorem derives_callTokens : Derives callTokens (.call (.symbol "f") [.number .one]) := by
  have hf : Derives [⟨.symbol, "f", 1⟩] (.symbol "f") := .symbol rfl
  have hone : Derives [⟨.number, "1", 1⟩] (.number .one) := .number rfl (by decide)
  exact .call rfl rfl (.cons hf (.cons hone .nil)) rfl

theorem readAll_callTokens :
    readAll callTokens = .ok [.call (.symbol "f") [.number .one]] ∧
      ∀ (pieces : List (List Token)) (es : List Expr), pieces.flatten = callTokens →
        List.Forall₂ Derives pieces es → pieces = [callTokens] ∧
          es = [.call (.symbol "f") [.number .one]] := by
  have hp : List.Forall₂ Derives [callTokens] [.call (.symbol "f") [.number .one]] :=
    .cons derives_callTokens .nil
  obtain ⟨hread, hunique⟩ :=
    readAll_eq_ok_iff_pieces callTokens [.call (.symbol "f") [.number .one]]
  refine ⟨hread.2 ⟨_, rfl, hp⟩, ?_⟩
  intro pieces es hf hd
  exact hunique _ _ _ _ hf hd rfl hp

end Lisplet.Reader
