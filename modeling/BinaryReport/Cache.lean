/-!
# Cache

The last value of each key. A key can be cleared, and so can the whole cache.
-/

namespace BinaryReport

/-- A cache of values by key. -/
structure Cache (α : Type) where
  /-- The entries; no key stands twice. -/
  entries : List (String × α)

namespace Cache

variable {α : Type}

/-- The empty cache. -/
def empty : Cache α := ⟨[]⟩

/-- The value of a key. -/
def get? (c : Cache α) (key : String) : Option α := c.entries.lookup key

/-- Removes a key. -/
def erase (c : Cache α) (key : String) : Cache α := ⟨c.entries.filter fun e => e.1 ≠ key⟩

/-- Sets the value of a key. -/
def insert (c : Cache α) (key : String) (value : α) : Cache α :=
  ⟨(key, value) :: (c.erase key).entries⟩

end Cache

end BinaryReport
