import Chaos.Word32
import Mathlib.Data.Int.Notation
import Mathlib.Logic.Relation

/-!
# Redis replies

`DBRedisResult` of `common/db/DBResult.h` and the conversion of a reply in `DBRedis::QueryResult`. A reply is what
the client library allocates, with the bytes that its string pointer points to; the command itself and the
connection are the reply that comes back.
-/
namespace Chaos

/-- The types that `QueryResult` names, and any other. -/
inductive ReplyType where
  | string
  | array
  | integer
  | nil
  | status
  | error
  | double
  | bool
  | map
  | set
  | other (type : ℤ)
  deriving DecidableEq, Repr

/-- `redisReply`. `str` are the bytes, `none` for a null pointer; `element` are the `elements` replies in it. -/
structure RedisReply where
  type : ReplyType
  integer : ℤ
  str : Option (List UInt8)
  len : ℕ
  element : List RedisReply

/-- With the members that the constructor leaves. -/
structure DBRedisResult where
  int : ℤ := 0
  str : List UInt8 := []
  ary : List DBRedisResult := []

namespace DBRedisResult

def setInt (r : DBRedisResult) (value : ℤ) : DBRedisResult := { r with int := value }

/-- `SetString` inserts in front. A negative length is too long for a string, which throws, and there is nothing to
read behind the bytes; both are `none`. -/
def setString (r : DBRedisResult) (value : Option (List UInt8)) (len : ℤ) : Option DBRedisResult :=
  if len < 0 ∨ (value.getD []).length < len then none
  else some { r with str := (value.getD []).take len.toNat ++ r.str }

def appendAry (r : DBRedisResult) (member : DBRedisResult) : DBRedisResult := { r with ary := r.ary ++ [member] }

end DBRedisResult

namespace DBRedis

open Word32

/-- The number of elements that an `int` can count. -/
def maxElements : ℕ := 2147483647

mutual

/-- `QueryResult`: the result and the return value. -/
def queryResult : RedisReply → DBRedisResult → Option (DBRedisResult × Bool)
  | ⟨type, integer, str, len, element⟩, result =>
    match type with
    | .integer => some (result.setInt integer, true)
    | .string | .status | .double | .bool => (result.setString str (int32 len)).map fun t => (t, true)
    | .array | .map | .set =>
      if element.length ≤ maxElements then (queryElements element result).map fun t => (t, true) else none
    | .nil => some (result, true)
    | .error => (result.setString str (int32 len)).map fun t => (t, false)
    | .other _ => some (result, false)

/-- The loop over the elements, which drops what the calls return. -/
def queryElements : List RedisReply → DBRedisResult → Option DBRedisResult
  | [], result => some result
  | reply :: replies, result => match queryResult reply {} with
    | none => none
    | some (redisResult, _) => queryElements replies (result.appendAry redisResult)

end

/-- `Query`: the result and the return value. `reply` is what `redisCommand` returns. -/
def query (connected : Bool) (reply : Option RedisReply) (result : Option DBRedisResult) :
    Option (Option DBRedisResult × ℤ) :=
  match result with
  | none => some (none, -1)
  | some r =>
    if !connected then some (some r, -1)
    else match reply with
      | none => some (some r, -1)
      | some pReply => (queryResult pReply r).map fun t => (some t.1, if t.2 then 0 else -1)

end DBRedis

/-! ## The replies in a reply -/

namespace RedisReply

/-- The reply is an error or of a type without a conversion. -/
def Failed (r : RedisReply) : Prop := match r.type with
  | .error | .other _ => True
  | .string | .array | .integer | .nil | .status | .double | .bool | .map | .set => False

/-- The elements that the conversion goes into. -/
def members (r : RedisReply) : List RedisReply :=
  if r.type = .array ∨ r.type = .map ∨ r.type = .set then r.element else []

/-- `s` is `r` or an element in it, at any depth. -/
def Holds (r s : RedisReply) : Prop := Relation.ReflTransGen (fun a b => b ∈ a.element) r s

/-- The conversion of `r` comes to `s`. -/
def Visits (r s : RedisReply) : Prop := Relation.ReflTransGen (fun a b => b ∈ a.members) r s

/-- What holds of a reply whenever it holds of its elements holds of every reply. -/
theorem induction {P : RedisReply → Prop} (h : ∀ r, (∀ s ∈ r.element, P s) → P r) (r : RedisReply) : P r := by
  refine @RedisReply.rec P (fun replies => ∀ s ∈ replies, P s) ?_ ?_ ?_ r
  · intro type integer str len element ih
    exact h ⟨type, integer, str, len, element⟩ ih
  · exact nofun
  · intro reply replies hreply hreplies s hs
    rcases List.mem_cons.mp hs with rfl | hs
    · exact hreply
    · exact hreplies s hs

theorem mem_element_of_mem_members {r s : RedisReply} (h : s ∈ r.members) : s ∈ r.element := by
  rw [members] at h
  split at h
  · exact h
  · exact absurd h List.not_mem_nil

/-- Down from a reply the conversion comes to the reply itself and to what it comes to from the elements. -/
theorem forall_visits {r : RedisReply} {P : RedisReply → Prop} :
    (∀ s, r.Visits s → P s) ↔ P r ∧ ∀ m ∈ r.members, ∀ s, m.Visits s → P s := by
  constructor
  · intro h
    exact ⟨h r .refl, fun m hm s hs => h s (.head hm hs)⟩
  · intro h s hs
    rcases Relation.ReflTransGen.cases_head hs with rfl | ⟨m, hm, hms⟩
    · exact h.1
    · exact h.2 m hm s hms

end RedisReply

/-! ## When the conversion returns -/

namespace DBRedis

open RedisReply Word32

section MapM
variable {α β : Type*} {f : α → Option β} {l : List α}

theorem isSome_mapM : (l.mapM f).isSome ↔ ∀ a ∈ l, (f a).isSome := by
  induction l with
  | nil => simp
  | cons a l ih =>
    cases ha : f a with
    | none => simp [List.mapM_cons, ha]
    | some b =>
      cases hl : l.mapM f with
      | none => simpa [List.mapM_cons, ha, hl] using ih
      | some bs => simpa [List.mapM_cons, ha, hl] using ih

theorem mapM_eq_some_map (g : α → β) : l.mapM f = some (l.map g) ↔ ∀ a ∈ l, f a = some (g a) := by
  induction l with
  | nil => simp
  | cons a l ih =>
    rw [List.mapM_cons, List.forall_mem_cons, ← ih]
    cases ha : f a with
    | none => simp
    | some b =>
      cases hl : l.mapM f with
      | none => simp
      | some bs => simp

end MapM

variable {r : RedisReply} {result t : DBRedisResult}

/-- What a new result becomes. -/
def converted (r : RedisReply) : Option DBRedisResult := (queryResult r {}).map Prod.fst

/-- The loop appends what the elements are converted to. -/
theorem queryElements_eq (replies : List RedisReply) (result : DBRedisResult) :
    queryElements replies result = (replies.mapM converted).map fun ary => { result with ary := result.ary ++ ary } := by
  induction replies generalizing result with
  | nil =>
    cases result
    simp [queryElements]
  | cons reply replies ih =>
    rw [queryElements, List.mapM_cons, converted]
    cases queryResult reply {} with
    | none => rfl
    | some t =>
      simp only [ih, DBRedisResult.appendAry]
      cases replies.mapM converted with
      | none => rfl
      | some ary => simp

/-- The conversion of the reply itself goes through: the bytes are there, and an `int` counts the elements. -/
def Fits (r : RedisReply) : Prop := match r.type with
  | .string | .status | .error | .double | .bool => 0 ≤ int32 r.len ∧ int32 r.len ≤ (r.str.getD []).length
  | .array | .map | .set => r.element.length ≤ maxElements
  | .integer | .nil | .other _ => True

theorem isSome_setString {value : Option (List UInt8)} {len : ℤ} :
    (result.setString value len).isSome ↔ 0 ≤ len ∧ len ≤ (value.getD []).length := by
  rw [DBRedisResult.setString]
  split
  · simp only [Option.isSome_none, Bool.false_eq_true, false_iff]
    omega
  · simp only [Option.isSome_some, true_iff]
    omega

/-- One reply converts where it fits and its elements convert. -/
theorem isSome_queryResult_node (r : RedisReply) (result : DBRedisResult) :
    (queryResult r result).isSome ↔ Fits r ∧ ∀ m ∈ r.members, (converted m).isSome := by
  obtain ⟨type, integer, str, len, element⟩ := r
  cases type with
  | string | status | error | double | bool => simp [queryResult, Fits, members, isSome_setString]
  | integer | nil | other => simp [queryResult, Fits, members]
  | array | map | set =>
    by_cases hlen : element.length ≤ maxElements
    · simp [queryResult, Fits, members, hlen, queryElements_eq, isSome_mapM]
    · simp [queryResult, Fits, hlen]

theorem isSome_queryResult (r : RedisReply) (result : DBRedisResult) :
    (queryResult r result).isSome ↔ ∀ s, r.Visits s → Fits s := by
  induction r using RedisReply.induction generalizing result with
  | h r ih =>
    rw [isSome_queryResult_node, forall_visits]
    refine and_congr_right fun _ => forall₂_congr fun m hm => ?_
    rw [converted, Option.isSome_map]
    exact ih m (mem_element_of_mem_members hm) {}

/-! ## What the conversion returns -/

/-- Only the type of the reply itself decides. -/
theorem returns_iff {b : Bool} (h : queryResult r result = some (t, b)) : b = true ↔ ¬ r.Failed := by
  have hmap {v : Option DBRedisResult} {c : Bool} (h : (v.map fun t => (t, c)) = some (t, b)) : b = c := by
    obtain ⟨_, -, hv⟩ := Option.map_eq_some_iff.mp h
    exact (Prod.mk.inj hv).2.symm
  obtain ⟨type, integer, str, len, element⟩ := r
  simp only [queryResult] at h
  cases type with
  | string | status | double | bool =>
    obtain rfl := hmap h
    simp [Failed]
  | error =>
    obtain rfl := hmap h
    simp [Failed]
  | integer | nil | other =>
    obtain ⟨-, rfl⟩ := Prod.mk.inj (Option.some.inj h)
    simp [Failed]
  | array | map | set =>
    simp only at h
    split at h
    · obtain rfl := hmap h
      simp [Failed]
    · cases h

end DBRedis

end Chaos
