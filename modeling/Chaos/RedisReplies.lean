import Chaos.DBRedis

/-!
# What a Redis result says

Which replies keep their values in the result, and which failures the return value reports. The values of a `BOOL`
are lost, and so is what a call for an element returns.
-/
namespace Chaos.DBRedis

open RedisReply Word32

variable {r : RedisReply}

/-! ## Errors -/

/-- No reply in `r` is an error or unsupported. -/
def Clean (r : RedisReply) : Prop := ∀ s, r.Holds s → ¬ s.Failed

/-- Where the conversion or the query says that all is well, it is. -/
def Reported (r : RedisReply) : Prop :=
  (∀ result t, queryResult r result = some (t, true) → Clean r) ∧
    ∀ connected result t, query connected (some r) result = some (t, 0) → Clean r

/-- `Query` returns 0 only where the conversion returns true. -/
theorem queryResult_of_query {connected : Bool} {result t : Option DBRedisResult}
    (h : query connected (some r) result = some (t, 0)) : ∃ v w, queryResult r v = some (w, true) := by
  cases result with
  | none => simp [query] at h
  | some v =>
    cases connected with
    | false => simp [query] at h
    | true =>
      obtain ⟨⟨w, b⟩, hw, heq⟩ := Option.map_eq_some_iff.mp h
      cases b with
      | true => exact ⟨v, w, hw⟩
      | false => simp at heq

/-- Failures are reported exactly where the reply itself fails, nothing in it does, or the conversion throws. -/
theorem errors_reported_iff (r : RedisReply) :
    Reported r ↔ r.Failed ∨ Clean r ∨ ∃ s, r.Visits s ∧ ¬ Fits s := by
  constructor
  · intro h
    by_contra hnone
    simp only [not_or, not_exists, not_and, not_not] at hnone
    obtain ⟨hfailed, hclean, hfits⟩ := hnone
    obtain ⟨⟨t, b⟩, ht⟩ := Option.isSome_iff_exists.mp ((isSome_queryResult r {}).mpr hfits)
    obtain rfl := (returns_iff ht).mpr hfailed
    exact hclean (h.1 {} t ht)
  · intro h
    have hreturn (result t : DBRedisResult) (ht : queryResult r result = some (t, true)) : Clean r := by
      rcases h with hfailed | hclean | ⟨s, hs, hno⟩
      · exact absurd hfailed ((returns_iff ht).mp rfl)
      · exact hclean
      · exact absurd ((isSome_queryResult r result).mp (ht ▸ rfl) s hs) hno
    refine ⟨hreturn, ?_⟩
    intro connected result t ht
    obtain ⟨v, w, hw⟩ := queryResult_of_query ht
    exact hreturn v w hw

/-- A transaction whose only command failed. -/
def failedTransaction : RedisReply :=
  ⟨.array, 0, none, 0, [⟨.error, 0, some [69, 82, 82], 3, []⟩]⟩

/-- The query of the transaction returns 0. -/
theorem not_errors_reported : ¬ ∀ r, Reported r := by
  intro h
  obtain ⟨t, ht⟩ : ∃ t, query true (some failedTransaction) (some {}) = some (t, 0) := ⟨_, rfl⟩
  refine (h failedTransaction).2 _ _ _ ht ⟨.error, 0, some [69, 82, 82], 3, []⟩ ?_ trivial
  exact .single List.mem_cons_self

/-! ## Values -/

/-- The fields that a reply of its type has in the client library's layout: no string for a `BOOL`, and `len` bytes
for what is a string. Errors and unsupported replies are left out. -/
def Laid (r : RedisReply) : Prop := match r.type with
  | .integer | .nil | .array | .map | .set => True
  | .bool => r.str = none ∧ r.len = 0
  | .string | .status | .double => ∃ bytes, r.str = some bytes ∧ r.len = bytes.length
  | .error | .other _ => False

mutual

/-- What a reply says: its integer, its bytes or its elements. -/
def convert : RedisReply → DBRedisResult
  | ⟨type, integer, str, _, element⟩ => match type with
    | .integer | .bool => { int := integer }
    | .string | .status | .double | .error => { str := str.getD [] }
    | .array | .map | .set => { ary := convertAll element }
    | .nil | .other _ => {}

def convertAll : List RedisReply → List DBRedisResult
  | [] => []
  | reply :: replies => convert reply :: convertAll replies

end

theorem convertAll_eq (replies : List RedisReply) : convertAll replies = replies.map convert := by
  induction replies with
  | nil => rfl
  | cons reply replies ih => rw [convertAll, ih, List.map_cons]

/-- What the reply itself says is kept: an integer for a `BOOL` that is not 0 is not, nor is a string whose length is
no `int`. -/
def Kept (r : RedisReply) : Prop := match r.type with
  | .bool => r.integer = 0
  | .string | .status | .double => r.len ≤ 2147483647
  | .array | .map | .set => r.element.length ≤ maxElements
  | .integer | .nil | .error | .other _ => True

theorem converted_string_iff (bytes : List UInt8) :
    ({} : DBRedisResult).setString (some bytes) (int32 bytes.length) = some { str := bytes } ↔
      bytes.length ≤ 2147483647 := by
  constructor
  · intro h
    by_contra hlong
    rw [DBRedisResult.setString] at h
    split at h
    · cases h
    · have hbytes := congrArg (fun t => t.str.length) (Option.some.inj h)
      have hlt := int32_lt_of_lt (not_le.mp hlong)
      simp only [Option.getD_some, List.append_nil, List.length_take] at hbytes
      omega
  · intro h
    have hno : ¬ ((bytes.length : ℤ) < 0 ∨ bytes.length < (bytes.length : ℤ)) := by omega
    rw [int32_of_le h, DBRedisResult.setString, Option.getD_some, if_neg hno]
    simp

/-- One reply is converted faithfully where it is kept and its elements are converted faithfully. -/
theorem converted_node (hr : Laid r) :
    converted r = some (convert r) ↔ Kept r ∧ ∀ m ∈ r.members, converted m = some (convert m) := by
  obtain ⟨type, integer, str, len, element⟩ := r
  cases type with
  | integer | nil => simp [converted, queryResult, convert, Kept, members, DBRedisResult.setInt]
  | bool =>
    obtain ⟨rfl, rfl⟩ := hr
    simp [converted, queryResult, convert, Kept, members, DBRedisResult.setString, int32_of_le, eq_comm]
  | string | status | double =>
    obtain ⟨bytes, rfl, rfl⟩ := hr
    simp [converted, queryResult, convert, Kept, members, converted_string_iff, Function.comp_def]
  | array | map | set =>
    by_cases hlen : element.length ≤ maxElements
    · rw [converted]
      simp [queryResult, convert, Kept, members, hlen, queryElements_eq, convertAll_eq, ← mapM_eq_some_map]
    · simp [converted, queryResult, Kept, hlen]
  | error | other => exact hr.elim

/-- A reply is converted faithfully exactly where everything in it is kept. -/
theorem converted_faithfully_iff (hr : ∀ s, r.Visits s → Laid s) :
    converted r = some (convert r) ↔ ∀ s, r.Visits s → Kept s := by
  induction r using RedisReply.induction with
  | h r ih =>
    obtain ⟨hself, hmembers⟩ := forall_visits.mp hr
    rw [converted_node hself, forall_visits]
    exact and_congr_right fun _ => forall₂_congr fun m hm => ih m (mem_element_of_mem_members hm) (hmembers m hm)

/-- An array of `true`. -/
def trueInArray : RedisReply := ⟨.array, 0, none, 0, [⟨.bool, 1, none, 0, []⟩]⟩

theorem laid_trueInArray : ∀ s, trueInArray.Visits s → Laid s := by
  rw [forall_visits]
  refine ⟨trivial, ?_⟩
  intro m hm
  obtain rfl := List.mem_singleton.mp hm
  rw [forall_visits]
  exact ⟨⟨rfl, rfl⟩, nofun⟩

theorem converted_faithfully_iff_trueInArray :
    converted trueInArray = some (convert trueInArray) ↔ ∀ s, trueInArray.Visits s → Kept s :=
  converted_faithfully_iff laid_trueInArray

/-- The element becomes an empty result. -/
theorem not_converted_faithfully :
    ¬ ∀ r : RedisReply, (∀ s, r.Visits s → Laid s) → converted r = some (convert r) := by
  intro h
  have hints := congrArg (Option.map fun t => t.ary.map DBRedisResult.int) (h trueInArray laid_trueInArray)
  have hlost : (converted trueInArray).map (fun t => t.ary.map DBRedisResult.int) = some [0] := rfl
  rw [hlost] at hints
  exact absurd hints (by decide)

end Chaos.DBRedis
