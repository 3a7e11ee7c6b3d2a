import KuzuEventBus.Lib.Text

/-!
# Texts of a fixed width

A layout is a list of words and of places for numbers with a fixed number of digits.  Numbers that
fit into a layout are read back from their text, and of two texts in one layout the first is before
the other when its numbers are.

## Main definitions

* `numeral` — a number with leading zeros.
* `Piece`, `render`, `parse` — layouts, and writing and reading in them.
* `Fits` — the numbers have their places.

## Main results

* `parse_render` — **what is written is read back.**
* `render_lt_render_iff` — **texts are in the order of their numbers.**
-/

namespace FixedWidth

/-! ### Numerals -/

/-- The last `width` digits of a number. -/
def numeral : ℕ → ℕ → List Char
  | 0, _ => []
  | width + 1, n => numeral width (n / 10) ++ [Nat.digitChar (n % 10)]

@[simp] theorem length_numeral (width n : ℕ) : (numeral width n).length = width := by
  induction width generalizing n with
  | zero => rfl
  | succ width ih => rw [numeral, List.length_append, ih, List.length_singleton]

theorem isDigit_of_mem_numeral {width n : ℕ} : ∀ c ∈ numeral width n, c.isDigit = true := by
  induction width generalizing n with
  | zero => intro c hc; cases hc
  | succ width ih =>
    intro c hc
    rcases List.mem_append.mp hc with hc | hc
    · exact ih c hc
    · rw [List.mem_singleton.mp hc, Nat.isDigit_digitChar, decide_eq_true_eq]
      exact Nat.mod_lt n (by decide)

/-- A number is the value of its numeral. -/
theorem ofDigitChars_numeral {width n : ℕ} (h : n < 10 ^ width) :
    Nat.ofDigitChars 10 (numeral width n) 0 = n := by
  induction width generalizing n with
  | zero =>
    have hzero : n = 0 := by simpa using h
    rw [hzero]
    rfl
  | succ width ih =>
    have hdiv : n / 10 < 10 ^ width := by
      rw [pow_succ] at h
      omega
    rw [numeral, Nat.ofDigitChars_append, ih hdiv,
      Nat.ofDigitChars_cons_digitChar_of_lt_ten (Nat.mod_lt n (by decide)), Nat.ofDigitChars_nil]
    omega

/-- **Numerals of one width are in text order as their numbers are.** -/
theorem numeral_lt_of_lt {width m n : ℕ} (hn : n < 10 ^ width) (h : m < n) :
    numeral width m < numeral width n := by
  have hm := h.trans hn
  have hvalue := ofDigitChars_numeral hm
  rcases lt_trichotomy (numeral width m) (numeral width n) with hlt | heq | hgt
  · exact hlt
  · rw [heq, ofDigitChars_numeral hn] at hvalue
    exact absurd hvalue h.ne'
  · have hvalues := Text.ofDigitChars_lt_of_lt (a := 0) (by simp)
      isDigit_of_mem_numeral isDigit_of_mem_numeral hgt
    rw [ofDigitChars_numeral hn, hvalue] at hvalues
    omega

/-! ### Layouts -/

/-- A word, or the place of a number of some digits. -/
inductive Piece where
  | word (cs : List Char)
  | number (width : ℕ)
  deriving DecidableEq

/-- The numbers have as many places, and enough digits there. -/
def Fits : List Piece → List ℕ → Prop
  | [], vs => vs = []
  | .word _ :: ps, vs => Fits ps vs
  | .number _ :: _, [] => False
  | .number width :: ps, v :: vs => v < 10 ^ width ∧ Fits ps vs

/-- The text of numbers. -/
def render : List Piece → List ℕ → List Char
  | [], _ => []
  | .word cs :: ps, vs => cs ++ render ps vs
  | .number width :: ps, vs => numeral width (vs.headD 0) ++ render ps vs.tail

/-- The numbers of a text, if it has this layout. -/
def parse : List Piece → List Char → Option (List ℕ)
  | [], cs => if cs = [] then some [] else none
  | .word word :: ps, cs => if word <+: cs then parse ps (cs.drop word.length) else none
  | .number width :: ps, cs =>
    if (cs.take width).length = width ∧ ∀ c ∈ cs.take width, c.isDigit = true then
      (parse ps (cs.drop width)).map (Nat.ofDigitChars 10 (cs.take width) 0 :: ·)
    else none

/-- **What is written is read back.** -/
theorem parse_render {ps : List Piece} {vs : List ℕ} (h : Fits ps vs) :
    parse ps (render ps vs) = some vs := by
  induction ps generalizing vs with
  | nil =>
    obtain rfl : vs = [] := h
    rfl
  | cons p ps ih =>
    cases p with
    | word cs =>
      rw [render, parse, if_pos (List.prefix_append _ _), List.drop_left]
      exact ih h
    | number width =>
      cases vs with
      | nil => exact h.elim
      | cons v vs =>
        have htake : (numeral width v ++ render ps vs).take width = numeral width v :=
          List.take_left' (length_numeral width v)
        have hdrop : (numeral width v ++ render ps vs).drop width = render ps vs :=
          List.drop_left' (length_numeral width v)
        rw [render, parse, List.headD_cons, List.tail_cons, htake, hdrop,
          if_pos ⟨length_numeral width v, isDigit_of_mem_numeral⟩, ih h.2,
          ofDigitChars_numeral h.1]
        rfl

/-- Of lists that begin with lists of one length the first is before the other when its beginning
is. -/
theorem append_lt_append {α : Type*} [LinearOrder α] {l₁ l₂ : List α} (h : l₁ < l₂)
    (hlen : l₁.length = l₂.length) (r₁ r₂ : List α) : l₁ ++ r₁ < l₂ ++ r₂ := by
  induction l₁ generalizing l₂ with
  | nil =>
    rw [List.eq_nil_of_length_eq_zero hlen.symm] at h
    exact absurd h (lt_irrefl _)
  | cons a l₁ ih =>
    cases l₂ with
    | nil => cases hlen
    | cons b l₂ =>
      rw [List.cons_append, List.cons_append, List.cons_lt_cons_iff]
      rcases List.cons_lt_cons_iff.mp h with hab | ⟨rfl, hlt⟩
      · exact .inl hab
      · exact .inr ⟨rfl, ih hlt (Nat.succ.inj hlen)⟩

theorem render_lt_of_lt {ps : List Piece} {vs vs' : List ℕ} (h : Fits ps vs) (h' : Fits ps vs')
    (hlt : vs < vs') : render ps vs < render ps vs' := by
  induction ps generalizing vs vs' with
  | nil =>
    obtain rfl : vs = [] := h
    obtain rfl : vs' = [] := h'
    exact absurd hlt (lt_irrefl _)
  | cons p ps ih =>
    cases p with
    | word cs => exact List.append_left_lt (ih h h' hlt)
    | number width =>
      cases vs with
      | nil => exact h.elim
      | cons v vs =>
        cases vs' with
        | nil => exact h'.elim
        | cons v' vs' =>
          rcases List.cons_lt_cons_iff.mp hlt with hv | ⟨rfl, hvs⟩
          · exact append_lt_append (numeral_lt_of_lt h'.1 hv) (by simp) _ _
          · exact List.append_left_lt (ih h.2 h'.2 hvs)

/-- **Texts are in the order of their numbers.** -/
theorem render_lt_render_iff {ps : List Piece} {vs vs' : List ℕ} (h : Fits ps vs)
    (h' : Fits ps vs') : render ps vs < render ps vs' ↔ vs < vs' := by
  refine ⟨fun hlt => ?_, render_lt_of_lt h h'⟩
  rcases lt_trichotomy vs vs' with hvs | rfl | hvs
  · exact hvs
  · exact absurd hlt (lt_irrefl _)
  · exact absurd (hlt.trans (render_lt_of_lt h' h hvs)) (lt_irrefl _)

end FixedWidth
