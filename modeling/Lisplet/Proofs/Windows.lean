import Lisplet.Reader
/-!
# What a window holds and which one is taken

`matchWindow_append` says what a window that starts with `(` is read as: only its last token and
what stands before it matter. The lemmas on `widen` say that the shortest window with an answer is
taken.
-/

namespace Lisplet.Reader

variable {read : Reading} {first : Token} {rest : List Token}

/-! ## Forms -/

/-- An open form whose expressions are being read: a call, or a definition after its header. -/
inductive Form where
  | call (opening : Token) (read : List Expr)
  | definition (opening : Token) (name : String) (parameters : List String) (read : List Expr)

namespace Form

def opening : Form → Token
  | call opening _ | definition opening _ _ _ => opening

/-- Adds expressions to those that are read. -/
def extend (f : Form) (expressions : List Expr) : Form :=
  match f with
  | call opening read => call opening (read ++ expressions)
  | definition opening name parameters read =>
    definition opening name parameters (read ++ expressions)

/-- The expression that a `)` makes of the form: a call has read at least one expression, a
definition exactly one. -/
def value? : Form → Option Expr
  | call _ (callee :: arguments) => some (.call callee arguments)
  | definition _ name parameters [body] => some (.function name parameters body)
  | _ => none

@[simp] theorem opening_extend (f : Form) (es : List Expr) : (f.extend es).opening = f.opening := by
  cases f <;> rfl

@[simp] theorem extend_nil (f : Form) : f.extend [] = f := by
  cases f <;> simp [extend]

@[simp] theorem extend_extend (f : Form) (es es' : List Expr) :
    (f.extend es).extend es' = f.extend (es ++ es') := by
  cases f <;> simp [extend]

end Form

/-- What a `)` makes of `f` once `inner` is read in it. -/
def enclose (read : Reading) (f : Form) (inner : List Token) : Except SourceError (Option Expr) :=
  match inside read inner with
  | .ok (some expressions) => .ok (f.extend expressions).value?
  | .ok none => .ok none
  | .error e => .error e

theorem call_eq_enclose (opening : Token) (inner : List Token) :
    call read inner = enclose read (.call opening []) inner := by
  unfold call enclose
  rcases inside read inner with e | _ | _ | ⟨callee, arguments⟩ <;> rfl

theorem definition_of_short {line : Nat} {tokens : List Token} (h : tokens.length < 4) :
    definition read line tokens = .ok none := by
  unfold definition
  split
  · simp at h; omega
  · rfl

theorem definition_of_header {line : Nat} {name opening : Token} (hr : 2 ≤ rest.length)
    (h : ¬ (name.kind = .symbol ∧ opening.kind = .openParen)) :
    definition read line (name :: opening :: rest) = .error (.invalidDefinition line) := by
  unfold definition
  split
  · next heq => cases heq; exact if_neg h
  · next hne =>
    rcases rest with _ | ⟨t, _ | ⟨u, rest⟩⟩
    · simp at hr
    · simp at hr
    · exact absurd rfl (hne name opening t u rest)

theorem definition_of_parameters {line : Nat} {name opening : Token} (hr : 2 ≤ rest.length)
    (hn : name.kind = .symbol) (ho : opening.kind = .openParen) (start : Token) :
    definition read line (name :: opening :: rest) = match parameters line rest with
      | .ok (some (names, body)) => enclose read (.definition start name.text names []) body
      | .ok none => .ok none
      | .error e => .error e := by
  unfold definition enclose
  split
  · next heq =>
    cases heq
    rw [if_pos ⟨hn, ho⟩]
    simp only [bind, Except.bind]
    rcases parameters line _ with e | _ | ⟨names, body⟩
    · rfl
    · rfl
    · dsimp only
      rcases inside read body with e | _ | _ | ⟨e, _ | ⟨e', es⟩⟩ <;> rfl
  · next hne =>
    rcases rest with _ | ⟨t, _ | ⟨u, rest⟩⟩
    · simp at hr
    · simp at hr
    · exact absurd rfl (hne name opening t u rest)

/-! ## One window -/

/-- The form between `opening` and a `)`, from the tokens between them. -/
def form (read : Reading) (opening : Token) (inner : List Token) :
    Except SourceError (Option Expr) :=
  match inner with
  | [] => .ok none
  | head :: tail =>
    if head.isKeyword then definition read opening.line tail else call read (head :: tail)

theorem enclosed?_append (first last : Token) (inner : List Token) :
    enclosed? (first :: (inner ++ [last])) =
      if first.kind = .openParen ∧ last.kind = .closeParen then some inner else none := by
  simp [enclosed?]

theorem matchWindow_append (hf : first.kind = .openParen) (inner : List Token) (last : Token) :
    matchWindow read (first :: (inner ++ [last])) =
      if last.kind = .closeParen then form read first inner else .ok none := by
  obtain ⟨second, tail, hs⟩ : ∃ second tail, inner ++ [last] = second :: tail :=
    List.exists_cons_of_ne_nil (by simp)
  rw [hs, matchWindow, ← hs, enclosed?_append]
  by_cases hl : last.kind = .closeParen
  · rw [if_pos ⟨hf, hl⟩, if_pos hl]
    cases inner <;> rfl
  · rw [if_neg fun h => hl h.2, if_neg hl]

/-- A window of several tokens that does not start with `(` is no expression. -/
theorem matchWindow_of_first (hf : first.kind ≠ .openParen) (hr : rest ≠ []) :
    matchWindow read (first :: rest) = .ok none := by
  obtain ⟨inner, last, rfl⟩ := (List.eq_nil_or_concat rest).resolve_left hr
  obtain ⟨second, tail, hs⟩ : ∃ second tail, inner.concat last = second :: tail :=
    List.exists_cons_of_ne_nil (by simp)
  rw [hs, matchWindow, ← hs, List.concat_eq_append, enclosed?_append, if_neg fun h => hf h.1]

/-! ## The shortest window with an answer -/

/-- Windows without an answer are passed over. -/
theorem widen_skip {i k : Nat} (hik : i ≤ k) (hk : k ≤ rest.length)
    (h : ∀ j, i ≤ j → j < k → matchWindow read (first :: rest.take j) = .ok none) :
    widen read first rest i = widen read first rest k := by
  induction hik with
  | refl => rfl
  | @step k hik ih =>
    rw [ih (by omega) fun j hij hjk => h j hij (by omega), widen, h k hik (by omega)]
    simp only
    rw [if_pos (by omega)]

/-- No window has an answer. -/
theorem widen_exhausted
    (h : ∀ j, j ≤ rest.length → matchWindow read (first :: rest.take j) = .ok none) :
    widen read first rest 0 = (rest.length, .error (incomplete first)) := by
  rw [widen_skip (Nat.zero_le _) (Nat.le_refl _) fun j _ hj => h j (by omega), widen,
    h _ (Nat.le_refl _)]
  simp

theorem widen_of_some {k : Nat} {e : Expr}
    (h : matchWindow read (first :: rest.take k) = .ok (some e)) :
    widen read first rest k = (k, .ok e) := by
  rw [widen, h]

theorem widen_of_error {k : Nat} {e : SourceError}
    (h : matchWindow read (first :: rest.take k) = .error e) :
    widen read first rest k = (k, .error e) := by
  rw [widen, h]

/-- The expression taken is that of its window. -/
theorem matchWindow_of_widen {i k : Nat} {e : Expr}
    (h : widen read first rest i = (k, .ok e)) :
    matchWindow read (first :: rest.take k) = .ok (some e) := by
  fun_induction widen read first rest i with
  | case1 => cases h
  | case2 i e' hw => cases h; exact hw
  | case3 i hw hlt ih => exact ih h
  | case4 => cases h

/-- A token that starts no expression. -/
theorem widen_of_no_start (hf : first.kind = .closeParen ∨ first.kind = .whitespace) :
    widen read first rest 0 = (rest.length, .error (incomplete first)) := by
  apply widen_exhausted
  intro j hj
  rcases j with _ | j
  · rcases hf with hf | hf <;> simp [matchWindow, atom, hf]
  · refine matchWindow_of_first (by rcases hf with hf | hf <;> simp [hf]) ?_
    rw [Ne, List.take_eq_nil_iff]
    rintro (h | rfl)
    · omega
    · simp at hj

/-! ## Consecutive expressions -/

theorem readAll_cons_of_ok {k : Nat} {e : Expr} (h : widen readAll first rest 0 = (k, .ok e)) :
    readAll (first :: rest) = ([e] ++ ·) <$> readAll (rest.drop k) := by
  rw [readAll_eq, sequence, h, readAll_eq (rest.drop k)]
  dsimp only
  cases sequence readAll (rest.drop k) <;> rfl

theorem readAll_cons_of_error {k : Nat} {e : SourceError}
    (h : widen readAll first rest 0 = (k, .error e)) : readAll (first :: rest) = .error e := by
  rw [readAll_eq, sequence, h]

/-! ## The windows of a form -/

section Forms

variable {inner : List Token} {closing : Token}

theorem matchWindow_take (hf : first.kind = .openParen) (hr : inner ++ [closing] <+: rest) :
    matchWindow read (first :: rest.take (inner.length + 1)) =
      if closing.kind = .closeParen then form read first inner else .ok none := by
  have ht : rest.take (inner.length + 1) = inner ++ [closing] := by
    simpa using (List.prefix_iff_eq_take.1 hr).symm
  rw [ht, matchWindow_append hf]

/-- The windows with fewer than `k` tokens inside have no answer. -/
def Passes (read : Reading) (first : Token) (rest : List Token) (k : Nat) : Prop :=
  ∀ inner closing, inner ++ [closing] <+: rest → inner.length < k → closing.kind = .closeParen →
    form read first inner = .ok none

theorem Passes.no_match {k : Nat} (hp : Passes read first rest k)
    (hf : first.kind = .openParen) {j : Nat} (hj : j ≤ k) (hl : j ≤ rest.length) :
    matchWindow read (first :: rest.take j) = .ok none := by
  rcases j with _ | j
  · simp [matchWindow, atom, hf]
  · have hr : rest.take j ++ [rest.get ⟨j, hl⟩] <+: rest := by
      rw [List.get_eq_getElem, List.take_append_getElem]
      exact List.take_prefix _ _
    have hlen : (rest.take j).length = j := by simp; omega
    have hm : matchWindow read (first :: rest.take ((rest.take j).length + 1)) = _ :=
      matchWindow_take hf hr
    rw [hlen] at hm
    rw [hm]
    split
    · next hc => exact hp _ _ hr (by omega) hc
    · rfl

theorem widen_of_passes (hp : Passes read first rest inner.length) (hf : first.kind = .openParen)
    (hr : inner ++ [closing] <+: rest) :
    widen read first rest 0 = widen read first rest (inner.length + 1) := by
  have hl : inner.length + 1 ≤ rest.length := by simpa using hr.length_le
  exact widen_skip (Nat.zero_le _) hl fun j _ hj => hp.no_match hf (by omega) (by omega)

theorem widen_form_some (hp : Passes read first rest inner.length) (hf : first.kind = .openParen)
    (hr : inner ++ [closing] <+: rest) (hc : closing.kind = .closeParen) {e : Expr}
    (h : form read first inner = .ok (some e)) :
    widen read first rest 0 = (inner.length + 1, .ok e) := by
  rw [widen_of_passes hp hf hr]
  exact widen_of_some (by rw [matchWindow_take hf hr, if_pos hc, h])

theorem widen_form_error (hp : Passes read first rest inner.length) (hf : first.kind = .openParen)
    (hr : inner ++ [closing] <+: rest) (hc : closing.kind = .closeParen) {e : SourceError}
    (h : form read first inner = .error e) :
    widen read first rest 0 = (inner.length + 1, .error e) := by
  rw [widen_of_passes hp hf hr]
  exact widen_of_error (by rw [matchWindow_take hf hr, if_pos hc, h])

theorem widen_form_exhausted (hp : Passes read first rest rest.length)
    (hf : first.kind = .openParen) :
    widen read first rest 0 = (rest.length, .error (incomplete first)) :=
  widen_exhausted fun _ hj => hp.no_match hf hj hj

end Forms

end Lisplet.Reader
