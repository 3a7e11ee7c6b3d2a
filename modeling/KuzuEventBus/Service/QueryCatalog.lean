import KuzuEventBus.Lib.CypherTokens
import KuzuEventBus.Lib.HashMap
import KuzuEventBus.Lib.Sha256
import KuzuEventBus.Service.QueryWorker
import Mathlib.Data.List.Induction

/-!
# The query catalog

`src/domain/query_catalog/value_objects.py`: the text of a query is normalised, white space for
white space, and the hash of what is left is the key under which
`src/application/usecases/submit_async_query.py` counts the query in the table `query_usage`.

A submission is recorded in one statement.  One whose statement raises leaves the table as it is,
and is not blocked; it is not among the submissions of a run.

## Main definitions

* `normalizeQueryText`, `QueryText`, `QueryHash`, `QueryHash.fromQueryText` — the value objects.
* `incrementUsage`, `recordUsage`, `catalog` — the table after a run of submissions.
* `NoCollision` — the digests of texts tell them apart.
* `PreservesQueries` — queries with one hash have the same tokens, and so have a query and the text
  that is stored for it.

## Main results

* `lookup_catalog` — the row of a key.
* `preservesQueries_iff` — **queries are preserved exactly when the texts that are accepted keep
  their tokens as their white space is squeezed.**
-/

namespace KuzuEventBus.Service.QueryCatalog

open CypherTokens

/-- `ValidationError`, with its message. -/
structure ValidationError where
  message : String
  deriving DecidableEq

/-! ### The value objects -/

/-- `_normalize_query_text`. -/
def normalizeQueryText (raw : String) : String :=
  String.ofList ([' '].intercalate (PyText.split (PyText.strip raw)))

/-- `QueryText`. -/
structure QueryText where
  value : String
  ne_empty : value ≠ ""
  length_le : value.length ≤ 10000

/-- `QueryText(value)`. -/
def QueryText.ofRaw (value : String) : Except ValidationError QueryText :=
  let normalized := normalizeQueryText value
  if hempty : normalized = "" then .error ⟨"Query text cannot be empty"⟩
  else if hlong : 10000 < normalized.length then
    .error ⟨"Query text exceeds maximum length of 10000 characters"⟩
  else .ok ⟨normalized, hempty, Nat.le_of_not_lt hlong⟩

/-- The digits of `QueryHash`. -/
def hexDigits : List Char := "0123456789abcdef".toList

/-- `QueryHash`. -/
structure QueryHash where
  value : String
  isHex : ∀ c ∈ value.toList, c ∈ hexDigits
  length_ge : 12 ≤ value.length

/-- `QueryHash(value)`. -/
def QueryHash.ofRaw (value : String) : Except ValidationError QueryHash :=
  let v := String.ofList (PyText.lower (PyText.strip value))
  if v = "" then .error ⟨"Query hash cannot be empty"⟩
  else if hhex : v.toList.any fun c => !hexDigits.contains c then
    .error ⟨"Query hash must be lowercase hex"⟩
  else if hshort : v.length < 12 then .error ⟨"Query hash too short"⟩
  else .ok ⟨v, by simpa using hhex, Nat.le_of_not_lt hshort⟩

/-- `str.encode("utf-8")`. -/
def encode (text : String) : List UInt8 := text.toList.flatMap String.utf8EncodeChar

/-- `QueryHash.from_query_text`. -/
def QueryHash.fromQueryText (text : QueryText) (length : ℤ) : Except ValidationError QueryHash :=
  if length < 12 ∨ 64 < length then .error ⟨"Hash length must be between 12 and 64"⟩
  else
    let digest := (Sha256.hexdigest (encode text.value)).take length.toNat
    QueryHash.ofRaw (String.ofList digest)

/-- The default of `length`. -/
def defaultLength : ℤ := 16

/-- The hash of a text that is submitted. -/
def hashOf (length : ℤ) (raw : String) : Except ValidationError QueryHash := do
  let text ← QueryText.ofRaw raw
  QueryHash.fromQueryText text length

/-- `QueryText` accepts a text. -/
def Accepted (raw : String) : Prop := ∃ text, QueryText.ofRaw raw = .ok text

/-- The digits that are the hash of a text that is normalised. -/
def digits (length : ℤ) (text : String) : String :=
  String.ofList ((Sha256.hexdigest (encode text)).take length.toNat)

theorem ofRaw_eq_ok_iff {raw : String} {text : QueryText} :
    QueryText.ofRaw raw = .ok text ↔ text.value = normalizeQueryText raw := by
  simp only [QueryText.ofRaw]
  constructor
  · intro h
    split_ifs at h
    rw [← Except.ok.inj h]
  · intro h
    obtain ⟨value, hempty, hlength⟩ := text
    subst h
    rw [dif_neg hempty, dif_neg (Nat.not_lt_of_le hlength)]

/-- Digits are left as they are. -/
theorem QueryHash.ofRaw_of_isHex {value : String} (hhex : ∀ c ∈ value.toList, c ∈ hexDigits)
    (hlength : 12 ≤ value.length) : QueryHash.ofRaw value = .ok ⟨value, hhex, hlength⟩ := by
  -- digits are no white space, and in lower case
  have hplain : ∀ d ∈ hexDigits, PyText.isSpace d = false ∧ PyText.lowerChar d = [d] := by
    have hall : (hexDigits.all fun d => !PyText.isSpace d && PyText.lowerChar d == [d]) = true := by
      rfl
    simpa using hall
  have hv : String.ofList (PyText.lower (PyText.strip value)) = value := by
    rw [PyText.strip_of_noSpace fun c hc => (hplain c (hhex c hc)).1,
      PyText.lower_of_forall fun c hc => (hplain c (hhex c hc)).2, String.ofList_toList]
  have hempty : value ≠ "" := by
    rintro rfl
    exact absurd hlength (by decide)
  simp only [QueryHash.ofRaw, hv]
  rw [if_neg hempty, dif_neg (by simpa using hhex), dif_neg (Nat.not_lt_of_le hlength)]

theorem isHex_digits {length : ℤ} {text : String} :
    ∀ c ∈ (digits length text).toList, c ∈ hexDigits := by
  intro c hc
  rw [digits, String.toList_ofList] at hc
  exact Sha256.mem_hexDigits_of_mem_hexdigest (List.mem_of_mem_take hc)

theorem length_digits {length : ℤ} (h : 12 ≤ length ∧ length ≤ 64) (text : String) :
    12 ≤ (digits length text).length := by
  rw [digits, String.length_ofList, List.length_take, Sha256.length_hexdigest]
  omega

/-- A text has a hash of every length that is allowed. -/
theorem fromQueryText_eq_ok_iff {text : QueryText} {length : ℤ} {hash : QueryHash} :
    QueryHash.fromQueryText text length = .ok hash ↔
      (12 ≤ length ∧ length ≤ 64) ∧ hash.value = digits length text.value := by
  unfold QueryHash.fromQueryText
  by_cases hrange : length < 12 ∨ 64 < length
  · rw [if_pos hrange]
    refine iff_of_false nofun fun h => ?_
    omega
  · have hallowed : 12 ≤ length ∧ length ≤ 64 := by omega
    rw [if_neg hrange, and_iff_right hallowed]
    change QueryHash.ofRaw (digits length text.value) = .ok hash ↔ _
    rw [QueryHash.ofRaw_of_isHex isHex_digits (length_digits hallowed text.value), Except.ok.injEq]
    obtain ⟨value, hvaluehex, hvaluelength⟩ := hash
    rw [QueryHash.mk.injEq, eq_comm]

theorem hashOf_eq_ok_iff {length : ℤ} {raw : String} {hash : QueryHash} :
    hashOf length raw = .ok hash ↔
      Accepted raw ∧ (12 ≤ length ∧ length ≤ 64) ∧
        hash.value = digits length (normalizeQueryText raw) := by
  unfold hashOf Accepted
  cases htext : QueryText.ofRaw raw with
  | error e => simp [bind, Except.bind]
  | ok text =>
    rw [← ofRaw_eq_ok_iff.mp htext, ← fromQueryText_eq_ok_iff]
    simp [bind, Except.bind]

/-- A text that is accepted has a hash. -/
theorem exists_hashOf {length : ℤ} (hlength : 12 ≤ length ∧ length ≤ 64) {raw : String}
    (h : Accepted raw) : ∃ hash, hashOf length raw = .ok hash := by
  let hash : QueryHash :=
    ⟨digits length (normalizeQueryText raw), isHex_digits, length_digits hlength _⟩
  exact ⟨hash, hashOf_eq_ok_iff.mpr ⟨h, hlength, rfl⟩⟩

/-! ### The table -/

/-- The primary key of `query_usage`. -/
structure UsageKey where
  tenantId : Uuid
  databaseId : Uuid
  queryHash : String
  deriving DecidableEq

/-- A row of `query_usage`. -/
structure UsageRow where
  queryText : String
  usageCount : ℕ
  lastUsedAt : Instant
  deriving DecidableEq

/-- The table `query_usage`. -/
abbrev Catalog := HashMap UsageKey UsageRow

/-- `increment_usage`. -/
def incrementUsage (rows : Catalog) (key : UsageKey) (queryText : String) (usedAt : Instant) :
    Catalog :=
  match rows.lookup key with
  | none => rows.insert key ⟨queryText, 1, usedAt⟩
  | some row => rows.insert key ⟨queryText, row.usageCount + 1, usedAt⟩

/-- A request, and the time at which it is recorded. -/
structure Submission where
  tenantId : Uuid
  databaseId : Uuid
  query : String
  usedAt : Instant

/-- What `SubmitAsyncQueryUseCase.execute` does to the catalog; an exception is not raised
again. -/
def recordUsage (rows : Catalog) (s : Submission) : Catalog :=
  match QueryText.ofRaw s.query with
  | .error _ => rows
  | .ok text =>
    match QueryHash.fromQueryText text defaultLength with
    | .error _ => rows
    | .ok hash =>
      incrementUsage rows ⟨s.tenantId, s.databaseId, hash.value⟩ text.value s.usedAt

/-- The table after a run of submissions. -/
def catalog (run : List Submission) : Catalog := run.foldl recordUsage ∅

/-- The key a submission is counted under, if its text is accepted. -/
def Submission.key (s : Submission) : Option UsageKey :=
  match hashOf defaultLength s.query with
  | .error _ => none
  | .ok hash => some ⟨s.tenantId, s.databaseId, hash.value⟩

/-! ### What is asked for -/

/-- The texts whose digests, cut to their shortest length, are the same are the same. -/
def NoCollision (texts : List String) : Prop :=
  ∀ text ∈ texts, ∀ text' ∈ texts,
    (Sha256.hexdigest (encode text)).take 12 = (Sha256.hexdigest (encode text')).take 12 →
      encode text = encode text'

/-- Queries are preserved: texts with one hash have the same tokens, and after every submission of
a run the text that is stored for a query that has been accepted has its tokens. -/
structure PreservesQueries (T : Tables) (run : List Submission) : Prop where
  sameHash : ∀ s ∈ run, ∀ s' ∈ run, ∀ length hash,
    hashOf length s.query = .ok hash → hashOf length s'.query = .ok hash →
      T.tokens s.query.toList = T.tokens s'.query.toList
  stored : ∀ before, before <+: run → ∀ s ∈ before, ∀ key, s.key = some key →
    ∃ row, (catalog before).lookup key = some row ∧
      T.tokens row.queryText.toList = T.tokens s.query.toList

/-! ### The table after a run -/

theorem key_eq_some_iff {s : Submission} {key : UsageKey} :
    s.key = some key ↔ Accepted s.query ∧
      key = ⟨s.tenantId, s.databaseId, digits defaultLength (normalizeQueryText s.query)⟩ := by
  unfold Submission.key
  cases hhash : hashOf defaultLength s.query with
  | error e =>
    refine iff_of_false nofun fun ⟨haccepted, _⟩ => ?_
    have hallowed : 12 ≤ defaultLength ∧ defaultLength ≤ 64 := by decide
    obtain ⟨hash, hok⟩ := exists_hashOf hallowed haccepted
    rw [hhash] at hok
    cases hok
  | ok hash =>
    obtain ⟨haccepted, _, hvalue⟩ := hashOf_eq_ok_iff.mp hhash
    simp only [Option.some.injEq, haccepted, true_and, hvalue, eq_comm]

theorem lookup_incrementUsage (rows : Catalog) (key key' : UsageKey) (queryText : String)
    (usedAt : Instant) :
    (incrementUsage rows key queryText usedAt).lookup key' =
      if key' = key then
        some ⟨queryText, ((rows.lookup key).map UsageRow.usageCount).getD 0 + 1, usedAt⟩
      else rows.lookup key' := by
  unfold incrementUsage
  cases rows.lookup key <;> exact AList.lookup_insert_eq ..

/-- What a submission leaves at a key. -/
theorem lookup_recordUsage (rows : Catalog) (s : Submission) (key : UsageKey) :
    (recordUsage rows s).lookup key =
      if s.key = some key then
        some ⟨normalizeQueryText s.query,
          ((rows.lookup key).map UsageRow.usageCount).getD 0 + 1, s.usedAt⟩
      else rows.lookup key := by
  unfold recordUsage Submission.key hashOf
  cases htext : QueryText.ofRaw s.query with
  | error e => rfl
  | ok text =>
    have hvalue := ofRaw_eq_ok_iff.mp htext
    cases hhash : QueryHash.fromQueryText text defaultLength with
    | error e => simp [bind, Except.bind, hhash]
    | ok hash =>
      simp only [bind, Except.bind, hhash, Option.some.injEq, lookup_incrementUsage, hvalue]
      split
      · next heq => rw [if_pos heq.symm, heq]
      · next hne => rw [if_neg (Ne.symm hne)]

/-- **The row of a key** has the text and the time of the last submission that is counted under it,
and their number. -/
theorem lookup_catalog (run : List Submission) (key : UsageKey) :
    (catalog run).lookup key =
      ((run.filter fun s => s.key = some key).getLast?).map fun s =>
        ⟨normalizeQueryText s.query, (run.filter fun s => s.key = some key).length, s.usedAt⟩ := by
  induction run using List.reverseRecOn with
  | nil => rfl
  | append_singleton run s ih =>
    have hcatalog : catalog (run ++ [s]) = recordUsage (catalog run) s := List.foldl_concat ..
    rw [hcatalog, lookup_recordUsage, List.filter_append, List.filter_singleton]
    by_cases hs : s.key = some key
    · -- the submissions before are as many as the row says, when there is one
      have hcount : (((catalog run).lookup key).map UsageRow.usageCount).getD 0 =
          (run.filter fun s => s.key = some key).length := by
        rw [ih]
        cases run.filter fun s => s.key = some key with
        | nil => rfl
        | cons first rest => simp [List.getLast?_cons]
      simp [hs, hcount]
    · simp [hs, ih]

/-! ### Queries are preserved -/

/-- The text that is stored for a query has its tokens exactly when they are kept. -/
theorem tokens_normalizeQueryText_iff (T : Tables) (raw : String) :
    T.tokens (normalizeQueryText raw).toList = T.tokens raw.toList ↔ T.KeepsTokens raw.toList := by
  rw [normalizeQueryText, String.toList_ofList, PyText.join_split_strip, tokens_squeeze_iff]

theorem encode_injective {text text' : String} (h : encode text = encode text') : text = text' := by
  have hbytes := congrArg List.toByteArray h
  rw [← String.toByteArray_inj, ← text.ofList_toList, ← text'.ofList_toList]
  exact hbytes

/-- Texts with one hash are the same when they are normalised. -/
theorem normalizeQueryText_eq_of_digits {run : List Submission}
    (hinj : NoCollision (run.map fun s => normalizeQueryText s.query)) {s s' : Submission}
    (hs : s ∈ run) (hs' : s' ∈ run) {length : ℤ} (hlength : 12 ≤ length)
    (h : digits length (normalizeQueryText s.query) = digits length (normalizeQueryText s'.query)) :
    normalizeQueryText s.query = normalizeQueryText s'.query := by
  have htake := congrArg (List.take 12) (String.ofList_injective h)
  rw [List.take_take, List.take_take, min_eq_left (by omega)] at htake
  exact encode_injective (hinj _ (List.mem_map_of_mem hs) _ (List.mem_map_of_mem hs') htake)

theorem noCollision_pair {text text' : String}
    (h : text = text' ∨ (Sha256.hexdigest (encode text)).take 12 ≠
      (Sha256.hexdigest (encode text')).take 12) : NoCollision [text, text'] := by
  intro a ha b hb hab
  simp only [List.mem_cons, List.not_mem_nil, or_false] at ha hb
  obtain rfl | rfl := ha <;> obtain rfl | rfl := hb
  · rfl
  · obtain rfl | hne := h
    · rfl
    · exact absurd hab hne
  · obtain rfl | hne := h
    · rfl
    · exact absurd hab.symm hne
  · rfl

/-- The text that is stored for a query is the query, normalised. -/
theorem exists_row_of_key {run : List Submission}
    (hinj : NoCollision (run.map fun s => normalizeQueryText s.query)) {before : List Submission}
    (hbefore : before <+: run) {s : Submission} (hs : s ∈ before) {key : UsageKey}
    (hkey : s.key = some key) :
    ∃ row, (catalog before).lookup key = some row ∧
      row.queryText = normalizeQueryText s.query := by
  have hmem : s ∈ before.filter fun s => s.key = some key := by
    simp [hs, hkey]
  obtain ⟨last, hlast⟩ := Option.isSome_iff_exists.mp
    (List.getLast?_isSome.mpr (List.ne_nil_of_mem hmem))
  refine ⟨_, by rw [lookup_catalog, hlast]; rfl, ?_⟩
  -- the row was written last for a query with the same hash
  obtain ⟨hlastmem, hlastkey⟩ := List.mem_filter.mp (List.mem_of_getLast? hlast)
  have hsame := (key_eq_some_iff.mp (of_decide_eq_true hlastkey)).2.symm.trans
    (key_eq_some_iff.mp hkey).2
  exact normalizeQueryText_eq_of_digits hinj (hbefore.subset hlastmem) (hbefore.subset hs)
    (by decide) (UsageKey.mk.inj hsame).2.2

theorem keepsTokens_of_preservesQueries {T : Tables} {run : List Submission}
    (h : PreservesQueries T run)
    (hinj : NoCollision (run.map fun s => normalizeQueryText s.query)) {s : Submission}
    (hs : s ∈ run) (haccepted : Accepted s.query) : T.KeepsTokens s.query.toList := by
  have hkey := key_eq_some_iff.mpr ⟨haccepted, rfl⟩
  obtain ⟨row, hrow, htokens⟩ := h.stored run (List.prefix_refl run) s hs _ hkey
  obtain ⟨row', hrow', htext⟩ := exists_row_of_key hinj (List.prefix_refl run) hs hkey
  rw [hrow, Option.some.injEq] at hrow'
  rw [hrow', htext] at htokens
  exact (tokens_normalizeQueryText_iff T s.query).mp htokens

/-- **Queries are preserved exactly when the texts that are accepted keep their tokens as their
white space is squeezed**: their literals and quoted names have single spaces only, and no token
comes after a line comment. -/
theorem preservesQueries_iff (T : Tables) (run : List Submission)
    (hinj : NoCollision (run.map fun s => normalizeQueryText s.query)) :
    PreservesQueries T run ↔
      ∀ s ∈ run, Accepted s.query → T.KeepsTokens s.query.toList := by
  refine ⟨fun h s hs => keepsTokens_of_preservesQueries h hinj hs, fun h => ⟨?_, ?_⟩⟩
  -- one hash: the texts are the same when they are normalised
  · intro s hs s' hs' length hash hhash hhash'
    obtain ⟨haccepted, hlength, hvalue⟩ := hashOf_eq_ok_iff.mp hhash
    obtain ⟨haccepted', _, hvalue'⟩ := hashOf_eq_ok_iff.mp hhash'
    have hsame := normalizeQueryText_eq_of_digits hinj hs hs' hlength.1 (hvalue.symm.trans hvalue')
    calc T.tokens s.query.toList
        = T.tokens (normalizeQueryText s.query).toList :=
          ((tokens_normalizeQueryText_iff T s.query).mpr (h s hs haccepted)).symm
      _ = T.tokens (normalizeQueryText s'.query).toList := by rw [hsame]
      _ = T.tokens s'.query.toList :=
          (tokens_normalizeQueryText_iff T s'.query).mpr (h s' hs' haccepted')
  -- what is stored is the text of a query with the same key, normalised
  · intro before hbefore s hs key hkey
    obtain ⟨row, hrow, htext⟩ := exists_row_of_key hinj hbefore hs hkey
    have haccepted := (key_eq_some_iff.mp hkey).1
    refine ⟨row, hrow, ?_⟩
    rw [htext, tokens_normalizeQueryText_iff]
    exact h s (hbefore.subset hs) haccepted

theorem preservesQueries_comment :
    PreservesQueries .cypher
      [⟨1, 2, "MATCH (n)\n  RETURN n // all", 3⟩, ⟨1, 2, "RETURN 'a b'", 4⟩] := by
  refine Iff.mpr (preservesQueries_iff .cypher _ (noCollision_pair (.inr ?_))) ?_
  · decide +kernel
  · rintro s hs -
    revert s
    decide +kernel

/-- Two literals that differ in their spaces have one hash. -/
theorem not_preservesQueries_spaces :
    NoCollision (["RETURN 'a  b'", "RETURN 'a b'"].map normalizeQueryText) ∧
      ¬ PreservesQueries .cypher [⟨1, 2, "RETURN 'a  b'", 3⟩, ⟨1, 2, "RETURN 'a b'", 4⟩] := by
  have hinj : NoCollision (["RETURN 'a  b'", "RETURN 'a b'"].map normalizeQueryText) :=
    noCollision_pair (.inl (by decide +kernel))
  refine ⟨hinj, fun h => ?_⟩
  have haccepted : Accepted "RETURN 'a  b'" :=
    ⟨⟨normalizeQueryText "RETURN 'a  b'", by decide +kernel, by decide +kernel⟩,
      ofRaw_eq_ok_iff.mpr rfl⟩
  have hkeeps := keepsTokens_of_preservesQueries h hinj List.mem_cons_self haccepted
  revert hkeeps
  decide +kernel

end KuzuEventBus.Service.QueryCatalog
