import Mathlib.Data.List.Sort
import Mathlib.Data.String.Basic

/-!
# Numbers and names in text

Decimal numbers as Rust's `str::parse` reads and `format!` writes them, white
space, and the order in which a directory listing is sorted.

## Main definitions

* `parseU64` — `str::parse::<u64>`.
* `isWhiteSpace`, `trim` — `char::is_whitespace` and `str::trim`.
* `sortNames` — names in byte order.

## Main results

* `parseU64_repr` — a number reads back as itself.
* `numbered_injective` — names that end in different numbers differ.
* `repr_lt_of_lt` — numbers with the same number of digits are in text order as they are.
* `sortNames_eq` — a strictly increasing listing of a set of names is its sort.
* `getLast?_sortNames` — the last of the sorted names is the greatest.
-/

namespace Text

/-- A statement about the characters of a text is decided on the text, not by trying all
characters there are. -/
instance (priority := high) decidableForallMemText (p : Char → Prop) [DecidablePred p]
    (cs : List Char) : Decidable (∀ c ∈ cs, p c) := List.decidableBAll p cs

instance (priority := high) decidableForallMemChar (p : Char → Prop) [DecidablePred p]
    (o : Option Char) : Decidable (∀ c ∈ o, p c) := Option.decidableForallMem o

/-! ### Letters -/

theorem isUpper_iff_toNat {c : Char} : c.isUpper = true ↔ 65 ≤ c.toNat ∧ c.toNat ≤ 90 :=
  decide_eq_true_iff

theorem isLower_iff_toNat {c : Char} : c.isLower = true ↔ 97 ≤ c.toNat ∧ c.toNat ≤ 122 := by
  change (decide ('a'.val ≤ c.val) && decide (c.val ≤ 'z'.val)) = true ↔ _
  rw [Bool.and_eq_true, decide_eq_true_iff, decide_eq_true_iff]
  exact Iff.rfl

theorem isAlpha_iff_toNat {c : Char} : c.isAlpha = true ↔
    (65 ≤ c.toNat ∧ c.toNat ≤ 90) ∨ (97 ≤ c.toNat ∧ c.toNat ≤ 122) := by
  change (c.isUpper || c.isLower) = true ↔ _
  rw [Bool.or_eq_true, isUpper_iff_toNat, isLower_iff_toNat]

/-! ### Numbers -/

/-- `2 ^ 64`, one more than `u64::MAX`. -/
abbrev u64Size : ℕ := 2 ^ 64

/-- `str::parse::<u64>`: an optional `+`, then at least one digit, in range. -/
def parseU64 (cs : List Char) : Option ℕ :=
  let ds := match cs with
    | '+' :: rest => rest
    | _ => cs
  if ds.isEmpty || !ds.all Char.isDigit then none
  else if Nat.ofDigitChars 10 ds 0 < u64Size then some (Nat.ofDigitChars 10 ds 0)
  else none

theorem plus_ne_digit {cs rest : List Char} (h : ∀ c ∈ cs, c.isDigit = true) :
    cs ≠ '+' :: rest := by
  rintro rfl
  have := h '+' List.mem_cons_self
  simp at this

/-- Digits that spell `n` parse as `n`. -/
theorem parseU64_of_digits {cs : List Char} (hne : cs ≠ []) (hd : ∀ c ∈ cs, c.isDigit = true)
    (hlt : Nat.ofDigitChars 10 cs 0 < u64Size) :
    parseU64 cs = some (Nat.ofDigitChars 10 cs 0) := by
  have hall : cs.all Char.isDigit = true := List.all_eq_true.mpr hd
  unfold parseU64
  split
  · next rest => exact absurd rfl (plus_ne_digit hd)
  · simp [hne, hall, hlt]

theorem isDigit_of_mem_repr {n : ℕ} : ∀ c ∈ n.repr.toList, c.isDigit = true := by
  intro c hc
  rw [Nat.toList_repr] at hc
  exact Nat.isDigit_of_mem_toDigits (by decide) (by decide) hc

theorem parseU64_repr {n : ℕ} (h : n < u64Size) : parseU64 n.repr.toList = some n := by
  have hv : Nat.ofDigitChars 10 n.repr.toList 0 = n := by
    rw [Nat.toList_repr, Nat.ofDigitChars_ten_toDigits]
  have hne : n.repr.toList ≠ [] := by rw [Nat.toList_repr]; exact Nat.toDigits_ne_nil
  rw [parseU64_of_digits hne isDigit_of_mem_repr (by rw [hv]; exact h), hv]

/-- The decimal digits of a number hold no character that is not a digit. -/
theorem notMem_repr {n : ℕ} {c : Char} (hc : c.isDigit = false) : c ∉ n.repr.toList := by
  intro hmem
  have hdigit := isDigit_of_mem_repr c hmem
  rw [hc] at hdigit
  cases hdigit

/-- Names with one stem that end in different numbers differ. -/
theorem numbered_injective (stem : String) :
    Function.Injective fun n : ℕ => stem ++ toString n := by
  intro i j h
  have h := congrArg String.toList h
  simp only [String.toList_append, List.append_cancel_left_eq] at h
  have hdigits := congrArg (Nat.ofDigitChars 10 · 0) h
  simpa only [Nat.toString_eq_repr, Nat.toList_repr, Nat.ofDigitChars_ten_toDigits] using hdigits

/-! ### Numbers in text order -/

/-- Digits spell a greater number after a greater one, whatever they are. -/
theorem ofDigitChars_lt {cs : List Char} : ∀ {ds : List Char} {a b : ℕ},
    cs.length = ds.length → (∀ c ∈ cs, c.isDigit = true) → a < b →
      Nat.ofDigitChars 10 cs a < Nat.ofDigitChars 10 ds b := by
  induction cs with
  | nil =>
    intro ds a b hlen _ hab
    rw [List.eq_nil_of_length_eq_zero hlen.symm]
    simpa using hab
  | cons c cs ih =>
    intro ds a b hlen hcs hab
    cases ds with
    | nil => cases hlen
    | cons d ds =>
      rw [Nat.ofDigitChars_cons, Nat.ofDigitChars_cons]
      have hc : c.toNat ≤ 57 := by
        have hdigit := hcs c List.mem_cons_self
        simp only [Char.isDigit, Bool.and_eq_true, decide_eq_true_eq] at hdigit
        exact UInt32.le_iff_toNat_le.mp hdigit.2
      apply ih (Nat.succ.inj hlen) fun c hc => hcs c (List.mem_cons_of_mem _ hc)
      have hzero : '0'.toNat = 48 := rfl
      omega

/-- Of two numbers of the same number of digits the one that is less in text order is less. -/
theorem ofDigitChars_lt_of_lt {cs : List Char} : ∀ {ds : List Char} {a : ℕ},
    cs.length = ds.length → (∀ c ∈ cs, c.isDigit = true) → (∀ d ∈ ds, d.isDigit = true) →
      cs < ds → Nat.ofDigitChars 10 cs a < Nat.ofDigitChars 10 ds a := by
  induction cs with
  | nil =>
    intro ds a hlen _ _ hlt
    rw [List.eq_nil_of_length_eq_zero hlen.symm] at hlt
    exact absurd hlt (lt_irrefl _)
  | cons c cs ih =>
    intro ds a hlen hcs hds hlt
    cases ds with
    | nil => cases hlen
    | cons d ds =>
      rw [Nat.ofDigitChars_cons, Nat.ofDigitChars_cons]
      have hcs' : ∀ c ∈ cs, c.isDigit = true := fun c hc => hcs c (List.mem_cons_of_mem _ hc)
      rcases List.cons_lt_cons_iff.mp hlt with hcd | ⟨rfl, htail⟩
      · have hc : 48 ≤ c.toNat := by
          have hdigit := hcs c List.mem_cons_self
          simp only [Char.isDigit, Bool.and_eq_true, decide_eq_true_eq] at hdigit
          exact UInt32.le_iff_toNat_le.mp hdigit.1
        have hcd' : c.toNat < d.toNat := UInt32.lt_iff_toNat_lt.mp hcd
        apply ofDigitChars_lt (Nat.succ.inj hlen) hcs'
        have hzero : '0'.toNat = 48 := rfl
        omega
      · exact ih (Nat.succ.inj hlen) hcs' (fun d hd => hds d (List.mem_cons_of_mem _ hd)) htail

/-- **Numbers with the same number of digits are in text order as they are.** -/
theorem repr_lt_of_lt {m n : ℕ} (hlen : m.repr.toList.length = n.repr.toList.length) (h : m < n) :
    m.repr.toList < n.repr.toList := by
  have hvalue (k : ℕ) : Nat.ofDigitChars 10 k.repr.toList 0 = k := by
    rw [Nat.toList_repr, Nat.ofDigitChars_ten_toDigits]
  rcases lt_trichotomy m.repr.toList n.repr.toList with hlt | heq | hgt
  · exact hlt
  · rw [← hvalue m, ← hvalue n, heq] at h
    exact absurd h (lt_irrefl _)
  · have hback := ofDigitChars_lt_of_lt (a := 0) hlen.symm isDigit_of_mem_repr
      isDigit_of_mem_repr hgt
    rw [hvalue, hvalue] at hback
    exact absurd h (lt_asymm hback)

/-- Whatever follows texts of one length does not change their order. -/
theorem append_lt_append_of_length {cs : List Char} : ∀ {ds : List Char},
    cs.length = ds.length → cs < ds → ∀ xs ys : List Char, cs ++ xs < ds ++ ys := by
  induction cs with
  | nil =>
    intro ds hlen hlt
    rw [List.eq_nil_of_length_eq_zero hlen.symm] at hlt
    exact absurd hlt (lt_irrefl _)
  | cons c cs ih =>
    intro ds hlen hlt xs ys
    cases ds with
    | nil => cases hlen
    | cons d ds =>
      rw [List.cons_append, List.cons_append, List.cons_lt_cons_iff]
      rcases List.cons_lt_cons_iff.mp hlt with hcd | ⟨rfl, htail⟩
      · exact .inl hcd
      · exact .inr ⟨rfl, ih (Nat.succ.inj hlen) htail xs ys⟩

/-! ### White space -/

/-- `char::is_whitespace`: the Unicode property `White_Space`. -/
def isWhiteSpace (c : Char) : Bool :=
  let n := c.toNat
  (9 ≤ n && n ≤ 13) || n == 0x20 || n == 0x85 || n == 0xA0 || n == 0x1680 ||
    (0x2000 ≤ n && n ≤ 0x200A) || n == 0x2028 || n == 0x2029 || n == 0x202F || n == 0x205F ||
    n == 0x3000

/-- `str::trim`. -/
def trim (s : String) : String :=
  String.ofList
    (((s.toList.dropWhile isWhiteSpace).reverse.dropWhile isWhiteSpace).reverse)

/-- `str::split`, each part trimmed. -/
def splitTrim (sep : Char) (s : String) : List String :=
  (s.toList.splitOn sep).map fun cs => trim (String.ofList cs)

/-! ### Sorted names -/

/-- Names in the byte order of `OsStr`; on UTF-8 text it is the order of the
code points. -/
def sortNames (names : List String) : List String := names.insertionSort (· ≤ ·)

theorem mem_sortNames {names : List String} {n : String} : n ∈ sortNames names ↔ n ∈ names :=
  List.mem_insertionSort _

/-- A strictly increasing list with the same members as a listing without
repetition is its sort. -/
theorem sortNames_eq {names sorted : List String} (hnd : names.Nodup)
    (hs : sorted.Pairwise (· < ·)) (hmem : ∀ n, n ∈ names ↔ n ∈ sorted) :
    sortNames names = sorted := by
  have hnd' : sorted.Nodup := hs.imp fun h => ne_of_lt h
  have hperm : (sortNames names).Perm sorted :=
    (List.perm_insertionSort _ names).trans ((List.perm_ext_iff_of_nodup hnd hnd').mpr hmem)
  exact hperm.eq_of_pairwise' (List.pairwise_insertionSort _ names) (hs.imp fun h => le_of_lt h)

/-- The last name of a sorted listing is its greatest. -/
theorem getLast?_sortNames {names : List String} {n : String} :
    (sortNames names).getLast? = some n ↔ n ∈ names ∧ ∀ m ∈ names, m ≤ n := by
  have hsorted : (sortNames names).Pairwise (· ≤ ·) := List.pairwise_insertionSort _ names
  have hlast : ∀ {n}, (sortNames names).getLast? = some n → n ∈ names ∧ ∀ m ∈ names, m ≤ n := by
    intro n h
    obtain ⟨init, hinit⟩ := List.getLast?_eq_some_iff.mp h
    rw [hinit, List.pairwise_append] at hsorted
    have hmem : ∀ m, m ∈ names ↔ m ∈ init ∨ m = n := by
      intro m
      rw [← mem_sortNames, hinit, List.mem_append, List.mem_singleton]
    refine ⟨(hmem n).mpr (.inr rfl), fun m hm => ?_⟩
    rcases (hmem m).mp hm with hm | rfl
    · exact hsorted.2.2 m hm n (List.mem_singleton_self n)
    · exact le_rfl
  refine ⟨hlast, fun ⟨hn, hmax⟩ => ?_⟩
  cases h : (sortNames names).getLast? with
  | none =>
    rw [List.getLast?_eq_none_iff] at h
    rw [← mem_sortNames, h] at hn
    cases hn
  | some n' =>
    obtain ⟨hn', hmax'⟩ := hlast h
    rw [le_antisymm (hmax n' hn') (hmax' n hn)]

end Text
