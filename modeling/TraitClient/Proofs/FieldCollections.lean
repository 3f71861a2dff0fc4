import Mathlib.Data.Finset.Card
import Mathlib.Data.List.Basic
import Mathlib.Data.String.Basic
import TraitClient.Client.Fields

/-!
# Fields as they come

JSON fields and form fields go through the same operations.  The form keeps every pair, and the
object keeps of each key the value that came last, where an operation that fails counts up to the
entry that cannot be encoded.
-/
namespace TraitClient

inductive FieldOperation (α : Type)
  | insert (key : String) (value : α)
  | extend (entries : List (String × α))

namespace FieldOperation

variable {α β : Type}

def entries : FieldOperation α → List (String × α)
  | .insert key value => [(key, value)]
  | .extend entries => entries

def map (f : α → β) : FieldOperation α → FieldOperation β
  | .insert key value => .insert key (f value)
  | .extend entries => .extend (entries.map fun e => (e.1, f e.2))

end FieldOperation

/-! ## Form fields -/

namespace FormFields

def perform (f : FormFields) : FieldOperation Json → FormFields
  | .insert key value => f.insert key value
  | .extend entries => f.extend entries

def pair (e : String × Json) : String × String := (e.1, e.2.fieldText)

theorem pairs_extend (f : FormFields) (entries : List (String × Json)) :
    (f.extend entries).pairs = f.pairs ++ entries.map pair := by
  induction entries generalizing f with
  | nil => simp [extend]
  | cons e rest ih =>
    have hRest : (f.extend (e :: rest)).pairs = ((f.insert e.1 e.2).extend rest).pairs := rfl
    rw [hRest, ih, insert, List.append_assoc]
    rfl

theorem pairs_perform (f : FormFields) (op : FieldOperation Json) :
    (f.perform op).pairs = f.pairs ++ op.entries.map pair := by
  cases op with
  | insert key value => rfl
  | extend entries => exact pairs_extend f entries

theorem pairs_foldl (f : FormFields) (ops : List (FieldOperation Json)) :
    (ops.foldl perform f).pairs = f.pairs ++ (ops.flatMap (·.entries)).map pair := by
  induction ops generalizing f with
  | nil => simp
  | cons op rest ih =>
    rw [List.foldl_cons, ih, pairs_perform, List.flatMap_cons, List.map_append, List.append_assoc]

end FormFields

/-! ## Sorted entries -/

section Sorted

variable {entries : List (String × Json)} {key k : String} {value : Json}

/-- Each key is behind all smaller ones, so that there is one entry for it. -/
def Json.Ascending (entries : List (String × Json)) : Prop :=
  entries.Pairwise fun a b => a.1 < b.1

theorem Json.mem_keys_insertSorted :
    k ∈ (insertSorted key value entries).map Prod.fst ↔ k = key ∨ k ∈ entries.map Prod.fst := by
  fun_induction insertSorted key value entries with
  | case1 => simp
  | case2 => simp
  | case3 k' _ rest _ hSame =>
    rw [beq_iff_eq] at hSame
    simp [hSame]
  | case4 k' _ rest _ _ ih => simp [ih, or_left_comm]

theorem Json.ascending_insertSorted (h : Ascending entries) :
    Ascending (insertSorted key value entries) := by
  fun_induction insertSorted key value entries with
  | case1 => exact List.pairwise_singleton _ _
  | case2 k' v rest hBefore =>
    refine List.pairwise_cons.mpr ⟨fun e he => ?_, h⟩
    rcases List.mem_cons.mp he with rfl | hRest
    · exact hBefore
    · exact hBefore.trans (List.rel_of_pairwise_cons h hRest)
  | case3 k' v rest _ hSame =>
    rw [beq_iff_eq] at hSame
    exact List.pairwise_cons.mpr
      ⟨fun e he => hSame ▸ List.rel_of_pairwise_cons h he, h.of_cons⟩
  | case4 k' v rest hBefore hSame ih =>
    have hBehind : k' < key := lt_of_le_of_ne (not_lt.mp hBefore) fun hKey => hSame (by simp [hKey])
    refine List.pairwise_cons.mpr ⟨fun e he => ?_, ih h.of_cons⟩
    rcases mem_keys_insertSorted.mp (List.mem_map_of_mem he) with hKey | hRest
    · exact hKey ▸ hBehind
    · obtain ⟨old, hOld, hKey⟩ := List.mem_map.mp hRest
      exact hKey ▸ List.rel_of_pairwise_cons h hOld

theorem Json.find?_insertSorted :
    (insertSorted key value entries).find? (·.1 == k) =
      if key = k then some (key, value) else entries.find? (·.1 == k) := by
  fun_induction insertSorted key value entries with
  | case1 => by_cases h : key = k <;> simp [h]
  | case2 => by_cases h : key = k <;> simp [h]
  | case3 k' _ rest _ hSame =>
    rw [beq_iff_eq] at hSame
    subst hSame
    by_cases h : key = k <;> simp [h]
  | case4 k' _ rest _ hSame ih =>
    rw [beq_iff_eq] at hSame
    by_cases h : k' = k
    · subst h
      simp [hSame]
    · simp [h, ih]

end Sorted

/-! ## JSON fields -/

namespace JsonFields

variable {f : JsonFields} {key k : String} {value : Json} {entries : List (String × FieldValue)}

theorem get?_put : (f.put key value).get? k = if key = k then some value else f.get? k := by
  rw [get?, get?, put, Json.find?_insertSorted]
  split <;> rfl

def perform (f : JsonFields) : FieldOperation FieldValue → JsonFields × Option ClientError
  | .insert key value =>
    match f.insert key value with
    | .ok f => (f, none)
    | .error e => (f, some e)
  | .extend entries => f.extend entries

def putAll (f : JsonFields) (entries : List (String × Json)) : JsonFields :=
  entries.foldl (fun f e => f.put e.1 e.2) f

def last? (entries : List (String × Json)) (key : String) : Option Json :=
  (entries.reverse.find? (·.1 == key)).map (·.2)

theorem last?_cons (e : String × Json) (rest : List (String × Json)) (key : String) :
    last? (e :: rest) key = (last? rest key).or (if e.1 = key then some e.2 else none) := by
  rw [last?, List.reverse_cons, List.find?_append, last?]
  cases rest.reverse.find? (·.1 == key) with
  | some found => rfl
  | none => by_cases h : e.1 = key <;> simp [h]

theorem get?_putAll (f : JsonFields) (entries : List (String × Json)) (key : String) :
    (f.putAll entries).get? key = (last? entries key).or (f.get? key) := by
  induction entries generalizing f with
  | nil => rfl
  | cons e rest ih =>
    have hRest : f.putAll (e :: rest) = (f.put e.1 e.2).putAll rest := rfl
    rw [hRest, ih, get?_put, last?_cons, Option.or_assoc]
    split <;> rfl

theorem mem_keys_putAll (f : JsonFields) (entries : List (String × Json)) (key : String) :
    key ∈ (f.putAll entries).entries.map Prod.fst ↔
      key ∈ entries.map Prod.fst ∨ key ∈ f.entries.map Prod.fst := by
  induction entries generalizing f with
  | nil => simp [putAll]
  | cons e rest ih =>
    have hRest : f.putAll (e :: rest) = (f.put e.1 e.2).putAll rest := rfl
    rw [hRest, ih, put, Json.mem_keys_insertSorted, List.map_cons, List.mem_cons, or_left_comm,
      or_assoc]

theorem ascending_putAll {f : JsonFields} (h : Json.Ascending f.entries)
    (entries : List (String × Json)) : Json.Ascending (f.putAll entries).entries := by
  induction entries generalizing f with
  | nil => exact h
  | cons e rest ih => exact ih (Json.ascending_insertSorted h)

/-! ## Operations one after the other -/

/-- Operations that go on behind one that fails. -/
def performAll (f : JsonFields) (ops : List (FieldOperation FieldValue)) : JsonFields :=
  ops.foldl (fun f op => (f.perform op).1) f

def insertEach (f : JsonFields) (entries : List (String × FieldValue)) : JsonFields :=
  f.performAll (entries.map fun e => .insert e.1 e.2)

def IsEncoded (value : FieldValue) : Prop := ∃ v, value.encode = .ok v

/-- How entries end up: all are inserted, or those before the first that cannot be encoded, which
gives its error. -/
inductive Ends (f : JsonFields) (entries : List (String × FieldValue)) :
    JsonFields × Option ClientError → Prop
  | done (h : ∀ e ∈ entries, IsEncoded e.2) : Ends f entries (f.insertEach entries, none)
  | failed {before rest : List (String × FieldValue)} {key : String} {value : FieldValue}
      {error : ClientError} (split : entries = before ++ (key, value) :: rest)
      (h : ∀ e ∈ before, IsEncoded e.2) (hError : value.encode = .error error) :
      Ends f entries (f.insertEach before, some error)

theorem perform_insert {value : FieldValue} {v : Json} (h : value.encode = .ok v) (f : JsonFields)
    (key : String) : f.perform (.insert key value) = (f.put key v, none) := by
  rw [perform, insert, h]
  rfl

theorem perform_insert_of_error {value : FieldValue} {error : ClientError}
    (h : value.encode = .error error) (f : JsonFields) (key : String) :
    f.perform (.insert key value) = (f, some error) := by
  rw [perform, insert, h]
  rfl

theorem extend_cons {value : FieldValue} {v : Json} (h : value.encode = .ok v) (f : JsonFields)
    (key : String) (rest : List (String × FieldValue)) :
    f.extend ((key, value) :: rest) = (f.put key v).extend rest := by
  rw [extend, insert, h]
  rfl

theorem extend_cons_of_error {value : FieldValue} {error : ClientError}
    (h : value.encode = .error error) (f : JsonFields) (key : String)
    (rest : List (String × FieldValue)) : f.extend ((key, value) :: rest) = (f, some error) := by
  rw [extend, insert, h]
  rfl

theorem insertEach_cons {value : FieldValue} {v : Json} (h : value.encode = .ok v) (f : JsonFields)
    (key : String) (rest : List (String × FieldValue)) :
    f.insertEach ((key, value) :: rest) = (f.put key v).insertEach rest := by
  have hFirst : f.insertEach ((key, value) :: rest) =
      (f.perform (.insert key value)).1.insertEach rest := rfl
  rw [hFirst, perform_insert h]

theorem Ends.cons {value : FieldValue} {v : Json} (hValue : value.encode = .ok v)
    {rest : List (String × FieldValue)} {result : JsonFields × Option ClientError}
    (h : (f.put key v).Ends rest result) : f.Ends ((key, value) :: rest) result := by
  have hFirst : IsEncoded value := ⟨v, hValue⟩
  cases h with
  | done h =>
    rw [← insertEach_cons hValue]
    exact .done (List.forall_mem_cons.mpr ⟨hFirst, h⟩)
  | failed split h hError =>
    rw [← insertEach_cons hValue]
    exact .failed (congrArg ((key, value) :: ·) split) (List.forall_mem_cons.mpr ⟨hFirst, h⟩) hError

theorem extend_ends (f : JsonFields) (entries : List (String × FieldValue)) :
    f.Ends entries (f.extend entries) := by
  induction entries generalizing f with
  | nil => exact .done (by simp)
  | cons e rest ih =>
    cases hValue : e.2.encode with
    | ok v =>
      rw [extend_cons hValue]
      exact (ih _).cons hValue
    | error error =>
      rw [extend_cons_of_error hValue]
      exact .failed (List.nil_append _).symm (by simp) hValue

theorem perform_ends (f : JsonFields) (op : FieldOperation FieldValue) :
    f.Ends op.entries (f.perform op) := by
  cases op with
  | extend entries => exact extend_ends f entries
  | insert key value =>
    -- an insertion is an extension by one entry
    have hSame : f.perform (.insert key value) = f.extend [(key, value)] := by
      cases hValue : value.encode with
      | ok v => rw [perform_insert hValue, extend_cons hValue, extend]
      | error error => rw [perform_insert_of_error hValue, extend_cons_of_error hValue]
    exact hSame ▸ extend_ends f [(key, value)]

/-! ## Values that can be encoded -/

def sortedEntry (e : String × Json) : String × Json := (e.1, e.2.sorted)

theorem extend_encodable (f : JsonFields) (entries : List (String × Json)) :
    f.extend (entries.map fun e => (e.1, .encodable e.2)) =
      (f.putAll (entries.map sortedEntry), none) := by
  induction entries generalizing f with
  | nil => rfl
  | cons e rest ih =>
    rw [List.map_cons, extend_cons rfl, ih]
    rfl

theorem perform_encodable (f : JsonFields) (op : FieldOperation Json) :
    f.perform (op.map .encodable) = (f.putAll (op.entries.map sortedEntry), none) := by
  cases op with
  | insert key value => rfl
  | extend entries => exact extend_encodable f entries

theorem performAll_encodable (f : JsonFields) (ops : List (FieldOperation Json)) :
    f.performAll (ops.map (.map .encodable)) =
      f.putAll ((ops.flatMap (·.entries)).map sortedEntry) := by
  induction ops generalizing f with
  | nil => rfl
  | cons op rest ih =>
    have hFirst : f.performAll ((op :: rest).map (.map .encodable)) =
        (f.perform (op.map .encodable)).1.performAll (rest.map (.map .encodable)) := rfl
    rw [hFirst, perform_encodable, ih, List.flatMap_cons, List.map_append, putAll, putAll, putAll,
      List.foldl_append]

theorem last?_sortedEntry (entries : List (String × Json)) (key : String) :
    last? (entries.map sortedEntry) key = (last? entries key).map Json.sorted := by
  rw [last?, last?, ← List.map_reverse, List.find?_map, Option.map_map, Option.map_map]
  rfl

end JsonFields

/-! ## Both collections -/

/-- What the two collections have in common after operations on new ones.  Of `entries`, the form
has all pairs, and the object has each key once. -/
structure FieldsAgree (entries : List (String × Json)) (form : FormFields) (json : JsonFields) :
    Prop where
  pairs : form.pairs = entries.map FormFields.pair
  values : ∀ key, json.get? key = (JsonFields.last? entries key).map Json.sorted
  ascending : Json.Ascending json.entries
  keys : ∀ key, key ∈ json.entries.map Prod.fst ↔ key ∈ form.pairs.map Prod.fst
  size : json.size = (form.pairs.map Prod.fst).toFinset.card

theorem Json.Ascending.nodup_keys {entries : List (String × Json)} (h : Ascending entries) :
    (entries.map Prod.fst).Nodup :=
  (List.pairwise_map.mpr h).imp ne_of_lt

theorem fieldsAgree_putAll (entries : List (String × Json)) :
    FieldsAgree entries ⟨entries.map FormFields.pair⟩
      (JsonFields.empty.putAll (entries.map JsonFields.sortedEntry)) := by
  have hAscending := JsonFields.ascending_putAll (f := .empty) List.Pairwise.nil
    (entries.map JsonFields.sortedEntry)
  have hKeys (key : String) :
      key ∈ (JsonFields.empty.putAll (entries.map JsonFields.sortedEntry)).entries.map Prod.fst ↔
        key ∈ (entries.map FormFields.pair).map Prod.fst := by
    rw [JsonFields.mem_keys_putAll, List.map_map, List.map_map]
    simp [JsonFields.empty, JsonFields.sortedEntry, FormFields.pair]
  refine ⟨rfl, fun key => ?_, hAscending, hKeys, ?_⟩
  · rw [JsonFields.get?_putAll, JsonFields.last?_sortedEntry]
    exact Option.or_none
  · have hSame : ((JsonFields.empty.putAll (entries.map JsonFields.sortedEntry)).entries.map
        Prod.fst).toFinset = ((entries.map FormFields.pair).map Prod.fst).toFinset := by
      ext key
      rw [List.mem_toFinset, List.mem_toFinset, hKeys]
    rw [JsonFields.size, ← hSame, List.toFinset_card_of_nodup hAscending.nodup_keys,
      List.length_map]

/-- After operations that can be encoded, which all succeed, the collections agree.  Any operation
on any fields ends with the entries before the first failure, which are none for an insertion. -/
theorem fields_agree (ops : List (FieldOperation Json)) :
    FieldsAgree (ops.flatMap (·.entries)) (ops.foldl FormFields.perform .empty)
      (JsonFields.empty.performAll (ops.map (.map .encodable))) ∧
    (∀ (f : JsonFields) (op : FieldOperation Json), (f.perform (op.map .encodable)).2 = none) ∧
    (∀ (f : JsonFields) op, f.Ends op.entries (f.perform op)) ∧
    ∀ (f : JsonFields) key value error, value.encode = .error error →
      f.perform (.insert key value) = (f, some error) := by
  refine ⟨?_, ?_, JsonFields.perform_ends, ?_⟩
  · have hForm : ops.foldl FormFields.perform .empty =
        ⟨(ops.flatMap (·.entries)).map FormFields.pair⟩ :=
      congrArg FormFields.mk (FormFields.pairs_foldl .empty ops)
    rw [hForm, JsonFields.performAll_encodable]
    exact fieldsAgree_putAll _
  · intro f op
    rw [JsonFields.perform_encodable]
  · intro f key value error hError
    exact JsonFields.perform_insert_of_error hError f key

example : JsonFields.empty.extend
    [("b", .encodable .null), ("a", .encodable (.bool true)), ("c", .unencodable),
      ("a", .encodable .null)] = (⟨[("a", .bool true), ("b", .null)]⟩, some .encode) := by
  cbv

end TraitClient
