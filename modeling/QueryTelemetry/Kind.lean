/-!
# Kinds of query

The seven kinds that an engine reports, in the order of their ordinals.
-/

set_option autoImplicit false

namespace QueryTelemetry

inductive QueryKind where
  | spi | scan | sql | sqlFields | text | set | index
  deriving DecidableEq, Repr

namespace QueryKind

def all : List QueryKind := [.spi, .scan, .sql, .sqlFields, .text, .set, .index]

def name : QueryKind → String
  | .spi => "SPI"
  | .scan => "SCAN"
  | .sql => "SQL"
  | .sqlFields => "SQL_FIELDS"
  | .text => "TEXT"
  | .set => "SET"
  | .index => "INDEX"

def ordinal : QueryKind → Nat
  | .spi => 0
  | .scan => 1
  | .sql => 2
  | .sqlFields => 3
  | .text => 4
  | .set => 5
  | .index => 6

def ofName? (s : String) : Option QueryKind := all.find? (·.name = s)

def ofOrdinal? (n : Int) : Option QueryKind := all.find? fun k => (k.ordinal : Int) = n

theorem mem_all (k : QueryKind) : k ∈ all := by cases k <;> decide

theorem of_name (k : QueryKind) : ofName? k.name = some k := by cases k <;> decide

theorem of_ordinal (k : QueryKind) : ofOrdinal? k.ordinal = some k := by cases k <;> decide

end QueryKind

end QueryTelemetry
