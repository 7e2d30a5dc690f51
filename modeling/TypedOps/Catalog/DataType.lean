import TypedOps.Text.Basic

/-!
# `TypedOps.Catalog.DataType`: names of the runtime's element types

Catalogs store element types as numbers. Each number with a name has a reference
variant a hundred above it, `DT_INVALID` excepted. A number without a name is
shown as its decimal text.
-/

set_option autoImplicit false

namespace TypedOps.DataType

/-- The element types and their numbers. -/
def plain : List (Text × Int) :=
  [("DT_INVALID", 0), ("DT_FLOAT", 1), ("DT_DOUBLE", 2), ("DT_INT32", 3), ("DT_UINT8", 4),
    ("DT_INT16", 5), ("DT_INT8", 6), ("DT_STRING", 7), ("DT_COMPLEX64", 8), ("DT_INT64", 9),
    ("DT_BOOL", 10), ("DT_QINT8", 11), ("DT_QUINT8", 12), ("DT_QINT32", 13), ("DT_BFLOAT16", 14),
    ("DT_QINT16", 15), ("DT_QUINT16", 16), ("DT_UINT16", 17), ("DT_COMPLEX128", 18),
    ("DT_HALF", 19), ("DT_RESOURCE", 20), ("DT_VARIANT", 21), ("DT_UINT32", 22),
    ("DT_UINT64", 23), ("DT_FLOAT8_E5M2", 24), ("DT_FLOAT8_E4M3FN", 25), ("DT_INT4", 29),
    ("DT_UINT4", 30)]

/-- All named numbers, reference variants included. `DT_INVALID` has no such variant. -/
def named : List (Text × Int) :=
  plain ++ plain.tail.map fun (name, number) => (name ++ "_REF", number + 100)

/-- The number with the given name. -/
def number? (name : Text) : Option Int := (named.find? (·.1 == name)).map (·.2)

/-- The name of a number, or its decimal text if it has none. -/
def name (number : Int) : Text :=
  ((named.find? (·.2 == number)).map (·.1)).getD (Text.ofInt number)

end TypedOps.DataType
