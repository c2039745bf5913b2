import Mathlib.Data.String.Basic
import Mathlib.Data.Sum.Order
import LadyBook.Reasoning.OrderedKeys

/-!
# Firestore documents

The field values the app stores, the documents of a collection as `[String: Any]` dictionaries of
them, the writes `setData(_:)` and `setData(_:merge:)`, and the query
`order(by: "createdAt", descending: true)`.
-/

open Reasoning.DocumentStore

namespace LadyBook

/-- `FIRTimestamp`: its nanoseconds are never out of range, `initWithSeconds:nanoseconds:` raises
on others. -/
@[ext] structure Timestamp where
  seconds : Int
  nanoseconds : Fin 1000000000
  deriving DecidableEq, Repr

def Timestamp.ofSeconds (seconds : Int) : Timestamp := ⟨seconds, 0⟩

def Timestamp.key (t : Timestamp) : Int ×ₗ Fin 1000000000 := toLex (t.seconds, t.nanoseconds)

theorem Timestamp.key_injective : Function.Injective Timestamp.key := by
  intro a b h
  have h' : (a.seconds, a.nanoseconds) = (b.seconds, b.nanoseconds) := toLex_inj.mp h
  exact Timestamp.ext (congrArg Prod.fst h') (congrArg Prod.snd h')

/-- `compare:` looks at the seconds first. -/
instance : LinearOrder Timestamp := LinearOrder.lift' Timestamp.key Timestamp.key_injective

/-- The kinds of field values the app writes. -/
inductive FieldValue where
  | timestamp (t : Timestamp)
  | string (s : String)
  deriving DecidableEq, Repr

/-- Firestore orders values of different types by type, timestamps before strings. -/
def FieldValue.key : FieldValue → Timestamp ⊕ₗ String
  | .timestamp t => toLex (Sum.inl t)
  | .string s => toLex (Sum.inr s)

theorem FieldValue.key_injective : Function.Injective FieldValue.key := by
  intro a b h
  cases a <;> cases b <;> simp_all [FieldValue.key]

instance : LinearOrder FieldValue := LinearOrder.lift' FieldValue.key FieldValue.key_injective

-- `value as? String`.
def FieldValue.asString : FieldValue → Option String
  | .string s => some s
  | .timestamp _ => none

-- `value as? Timestamp`.
def FieldValue.asTimestamp : FieldValue → Option Timestamp
  | .timestamp t => some t
  | .string _ => none

-- `[String: Any]`.
abbrev DocumentData := Fields String FieldValue

abbrev DocumentID := String

-- `Articles`.
abbrev Collection := Store DocumentID String FieldValue

abbrev DocumentWrite := Write DocumentID String FieldValue

namespace DocumentData

-- `data[field] as? String`.
def string? (data : DocumentData) (field : String) : Option String :=
  (data.lookup field).bind FieldValue.asString

-- `data[field] as? Timestamp`.
def timestamp? (data : DocumentData) (field : String) : Option Timestamp :=
  (data.lookup field).bind FieldValue.asTimestamp

theorem string?_of_lookup {data : DocumentData} {field s : String}
    (h : data.lookup field = some (.string s)) : data.string? field = some s := by
  rw [string?, h]
  rfl

theorem timestamp?_of_lookup {data : DocumentData} {field : String} {t : Timestamp}
    (h : data.lookup field = some (.timestamp t)) : data.timestamp? field = some t := by
  rw [timestamp?, h]
  rfl

theorem lookup_of_string? {data : DocumentData} {field s : String}
    (h : data.string? field = some s) : data.lookup field = some (.string s) := by
  obtain ⟨v, hv, hs⟩ := Option.bind_eq_some_iff.mp h
  cases v with
  | timestamp t => cases hs
  | string s' => rw [hv, Option.some.inj hs]

end DocumentData

-- `document(id).setData(data)`.
def setData (id : DocumentID) (data : DocumentData) : DocumentWrite := ⟨id, data, false⟩

-- `document(id).setData(data, merge: true)`.
def setDataMerge (id : DocumentID) (data : DocumentData) : DocumentWrite := ⟨id, data, true⟩

/-- The documents of `order(by: "createdAt", descending: true).getDocuments`: the query leaves out
documents without the field, and an ordering without an explicit key order ends with the key in the
direction of the last field. -/
def Collection.documents (c : Collection) : List (DocumentID × DocumentData) :=
  orderedBy c "createdAt"

end LadyBook
