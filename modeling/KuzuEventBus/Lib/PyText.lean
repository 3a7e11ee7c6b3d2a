import Mathlib.Data.List.Basic
import Mathlib.Data.Nat.Notation

/-!
# Python strings

`str.strip`, `str.upper`, `str.lower`, `str.startswith`, `str.split`, `str.find` and
`str.replace`, on the characters of a string.

## Main definitions

* `isSpace`, `strip` — white space, and a string without it at its ends.
* `upperChar`, `upper`, `lowerChar`, `lower` — upper and lower case.
* `startsWithAny` — `str.startswith` with a tuple.
* `lastPart`, `remove` — `s.split(c)[-1]` and `s.replace(word, "")`.
* `replace`, `find`, `after?` — `s.replace(word, by)`, `s.find(word, start)` and
  `s.split(word, 1)[1]`.
* `split`, `squeeze` — `s.split()`, and a string with one space for each run of white space.

## Main results

* `join_split_strip` — the words of a string, joined with spaces, are the string squeezed.
-/

namespace PyText

/-- `str.isspace` on one character: bidirectional type `WS`, `B` or `S`, or category `Zs`. -/
def isSpace (c : Char) : Bool :=
  let n := c.toNat
  (9 ≤ n && n ≤ 13) || (0x1c ≤ n && n ≤ 0x20) || n == 0x85 || n == 0xA0 || n == 0x1680 ||
    (0x2000 ≤ n && n ≤ 0x200A) || n == 0x2028 || n == 0x2029 || n == 0x202F || n == 0x205F ||
    n == 0x3000

/-- `str.strip`. -/
def strip (s : String) : List Char :=
  ((s.toList.dropWhile isSpace).reverse.dropWhile isSpace).reverse

/-- `str.strip`, on the characters. -/
def stripChars (cs : List Char) : List Char :=
  ((cs.dropWhile isSpace).reverse.dropWhile isSpace).reverse

/-- The upper case of a character.  The characters listed are those outside ASCII with an ASCII
letter in their upper case; the others outside ASCII are left as they are, so that text compares
with ASCII text as its upper case does. -/
def upperChar (c : Char) : List Char :=
  if c.toNat < 128 then [c.toUpper]
  else match c.toNat with
    | 0x00DF => ['S', 'S']
    | 0x0131 => ['I']
    | 0x0149 => ['ʼ', 'N']
    | 0x017F => ['S']
    | 0x01F0 => ['J', Char.ofNat 0x030C]
    | 0x1E96 => ['H', Char.ofNat 0x0331]
    | 0x1E97 => ['T', Char.ofNat 0x0308]
    | 0x1E98 => ['W', Char.ofNat 0x030A]
    | 0x1E99 => ['Y', Char.ofNat 0x030A]
    | 0x1E9A => ['A', Char.ofNat 0x02BE]
    | 0xFB00 => ['F', 'F']
    | 0xFB01 => ['F', 'I']
    | 0xFB02 => ['F', 'L']
    | 0xFB03 => ['F', 'F', 'I']
    | 0xFB04 => ['F', 'F', 'L']
    | 0xFB05 => ['S', 'T']
    | 0xFB06 => ['S', 'T']
    | _ => [c]

/-- `str.upper`. -/
def upper (cs : List Char) : List Char := cs.flatMap upperChar

/-- The lower case of a character, as `upperChar` is its upper case: outside ASCII, the dotted
capital I and the Kelvin sign have an ASCII letter in their lower case. -/
def lowerChar (c : Char) : List Char :=
  if c.toNat < 128 then [c.toLower]
  else match c.toNat with
    | 0x0130 => ['i', Char.ofNat 0x0307]
    | 0x212A => ['k']
    | _ => [c]

/-- `str.lower`. -/
def lower (cs : List Char) : List Char := cs.flatMap lowerChar

/-- `str.startswith`. -/
def startsWithAny (cs : List Char) (words : List String) : Bool :=
  words.any fun word => word.toList.isPrefixOf cs

/-- `s.split(c)[-1]`. -/
def lastPart (c : Char) (s : String) : List Char :=
  (s.toList.reverse.takeWhile (· ≠ c)).reverse

/-- The last part is the one of what follows a separator. -/
theorem lastPart_of_sep {c : Char} {s back : String} {front : List Char}
    (h : s.toList = front ++ c :: back.toList) : lastPart c s = lastPart c back := by
  have hstop : (c :: front.reverse).takeWhile (· ≠ c) = [] := List.takeWhile_cons_of_neg (by simp)
  unfold lastPart
  rw [h, List.reverse_append, List.reverse_cons, List.append_assoc, List.singleton_append,
    List.takeWhile_append, hstop, List.append_nil]
  split
  · next hlength =>
    rw [(List.takeWhile_prefix _).eq_of_length hlength]
  · rfl

/-- `remove`, when the next `skip` characters belong to an occurrence that is removed. -/
def removeFrom (word : List Char) : ℕ → List Char → List Char
  | _, [] => []
  | skip + 1, _ :: cs => removeFrom word skip cs
  | 0, c :: cs =>
    if word.isPrefixOf (c :: cs) then removeFrom word (word.length - 1) cs
    else c :: removeFrom word 0 cs

/-- `s.replace(word, "")`, for a word that is not empty. -/
def remove (word : String) (cs : List Char) : List Char := removeFrom word.toList 0 cs

/-- `replace`, when the next `skip` characters belong to an occurrence that is replaced. -/
def replaceFrom (word by_ : List Char) : ℕ → List Char → List Char
  | _, [] => []
  | skip + 1, _ :: cs => replaceFrom word by_ skip cs
  | 0, c :: cs =>
    if word.isPrefixOf (c :: cs) then by_ ++ replaceFrom word by_ (word.length - 1) cs
    else c :: replaceFrom word by_ 0 cs

/-- `s.replace(word, by)`, for a word that is not empty. -/
def replace (word by_ cs : List Char) : List Char := replaceFrom word by_ 0 cs

/-- `s.find(word, start)`; `-1` is `none`. -/
def find (word cs : List Char) (start : ℕ) : Option ℕ :=
  ((cs.tails.drop start).findIdx? fun rest => word.isPrefixOf rest).map (start + ·)

/-- `word in s`. -/
def contains (word cs : List Char) : Bool := (find word cs 0).isSome

/-- `s.split(word, 1)[1]`; there is none when the word does not occur. -/
def after? (word cs : List Char) : Option (List Char) :=
  (find word cs 0).map fun i => cs.drop (i + word.length)

/-- `s.split(word, 1)[0]`. -/
def before (word cs : List Char) : List Char :=
  match find word cs 0 with
  | some i => cs.take i
  | none => cs

/-- There is nothing to strip from a text without white space. -/
theorem strip_of_noSpace {s : String} (h : ∀ c ∈ s.toList, isSpace c = false) :
    strip s = s.toList := by
  have hdrop {cs : List Char} (hcs : ∀ c ∈ cs, isSpace c = false) : cs.dropWhile isSpace = cs := by
    cases cs with
    | nil => rfl
    | cons c cs => rw [List.dropWhile_cons_of_neg (by simp [hcs])]
  have hreverse : ∀ c ∈ s.toList.reverse, isSpace c = false := by
    intro c hc
    exact h c (List.mem_reverse.mp hc)
  rw [strip, hdrop h, hdrop hreverse, List.reverse_reverse]

theorem lower_of_forall {cs : List Char} (h : ∀ c ∈ cs, lowerChar c = [c]) : lower cs = cs := by
  induction cs with
  | nil => rfl
  | cons c cs ih =>
    rw [List.forall_mem_cons] at h
    rw [lower, List.flatMap_cons, h.1, ← lower, ih h.2, List.singleton_append]

/-- `split`, after the characters of a word. -/
def wordsFrom (word : List Char) : List Char → List (List Char)
  | [] => if word = [] then [] else [word]
  | c :: cs =>
    if isSpace c then
      if word = [] then wordsFrom [] cs else word :: wordsFrom [] cs
    else wordsFrom (word ++ [c]) cs

/-- `str.split()`. -/
def split (cs : List Char) : List (List Char) := wordsFrom [] cs

/-- A string with one space for each run of white space, and none at its end; `pending` says that
there is white space in front that has not been written. -/
def squeeze : Bool → List Char → List Char
  | _, [] => []
  | pending, c :: cs =>
    if isSpace c then squeeze true cs
    else (if pending then [' ', c] else [c]) ++ squeeze false cs

/-- White space in front of a string is not part of a word. -/
theorem split_dropWhile (cs : List Char) : split (cs.dropWhile isSpace) = split cs := by
  induction cs with
  | nil => rfl
  | cons c cs ih =>
    by_cases hc : isSpace c = true
    · rw [List.dropWhile_cons_of_pos hc, ih]
      simp [split, wordsFrom, hc]
    · rw [List.dropWhile_cons_of_neg hc]

theorem wordsFrom_of_spaces {cs : List Char} (h : ∀ c ∈ cs, isSpace c = true) (word : List Char) :
    wordsFrom word cs = wordsFrom word [] := by
  induction cs generalizing word with
  | nil => rfl
  | cons c cs ih =>
    rw [List.forall_mem_cons] at h
    simp [wordsFrom, h.1, ih h.2 []]

/-- White space at the end of a string is not part of a word. -/
theorem wordsFrom_append_spaces {blanks : List Char} (h : ∀ c ∈ blanks, isSpace c = true)
    (word cs : List Char) : wordsFrom word (cs ++ blanks) = wordsFrom word cs := by
  induction cs generalizing word with
  | nil => rw [List.nil_append, wordsFrom_of_spaces h]
  | cons c cs ih => simp only [List.cons_append, wordsFrom, ih]

theorem split_strip (s : String) : split (strip s) = split s.toList := by
  set front := s.toList.dropWhile isSpace with hfront
  -- the string without what is in front of it is what `strip` leaves, and white space
  have hparts : strip s ++ (front.reverse.takeWhile isSpace).reverse = front := by
    rw [strip, ← hfront, ← List.reverse_append, List.takeWhile_append_dropWhile,
      List.reverse_reverse]
  have hblank : ∀ c ∈ (front.reverse.takeWhile isSpace).reverse, isSpace c = true := by
    intro c hc
    exact List.all_eq_true.mp List.all_takeWhile c (List.mem_reverse.mp hc)
  rw [← split_dropWhile s.toList, ← hfront, ← hparts, split, split, wordsFrom_append_spaces hblank]

/-- What is joined after a word that is not finished. -/
theorem join_wordsFrom {word : List Char} (h : word ≠ []) (cs : List Char) :
    [' '].intercalate (wordsFrom word cs) = word ++ squeeze false cs ∧
      (if wordsFrom [] cs = [] then [] else ' ' :: [' '].intercalate (wordsFrom [] cs)) =
        squeeze true cs := by
  induction cs generalizing word with
  | nil => simp [wordsFrom, squeeze, h]
  | cons c cs ih =>
    by_cases hc : isSpace c = true
    · have ⟨_, hpending⟩ := ih h
      simp only [wordsFrom, squeeze, hc, if_true, h, if_false]
      refine ⟨?_, hpending⟩
      rw [← hpending]
      by_cases hnil : wordsFrom [] cs = []
      · simp [hnil]
      · rw [if_neg hnil, List.intercalate_cons_of_ne_nil hnil, List.append_assoc]
        rfl
    · have hword : word ++ [c] ≠ [] := by simp
      have hne : wordsFrom [c] cs ≠ [] := by
        intro hnil
        have hjoin := (ih (List.cons_ne_nil c [])).1
        rw [hnil] at hjoin
        cases hjoin
      simp [wordsFrom, squeeze, hc, (ih hword).1, (ih (List.cons_ne_nil c [])).1, hne]

/-- **The words of a string, joined with spaces, are the string squeezed.** -/
theorem join_split_strip (s : String) :
    [' '].intercalate (split (strip s)) = squeeze false (s.toList.dropWhile isSpace) := by
  rw [split_strip, ← split_dropWhile]
  cases hcs : s.toList.dropWhile isSpace with
  | nil => rfl
  | cons c cs =>
    have hc : isSpace c = false := by
      have := List.head?_dropWhile_not isSpace s.toList
      simpa [hcs] using this
    have hjoin := (join_wordsFrom (List.cons_ne_nil c []) cs).1
    simp [split, wordsFrom, squeeze, hc, hjoin]

end PyText
