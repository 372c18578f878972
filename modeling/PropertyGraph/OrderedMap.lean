/-! Finite maps that remember insertion order. Replacing the value of a key keeps
the key's place and a new key goes to the end, so two maps are equal exactly when
they list the same entries in the same order. No key occurs twice. -/

namespace PropertyGraph

structure OrderedMap (α β : Type) where
  entries : List (α × β)
  nodup : (entries.map Prod.fst).Nodup

namespace OrderedMap

variable {α β : Type}

theorem ext {m n : OrderedMap α β} (h : m.entries = n.entries) : m = n := by
  cases m; cases n; cases h; rfl

instance [DecidableEq α] [DecidableEq β] : DecidableEq (OrderedMap α β) := fun m n =>
  if h : m.entries = n.entries then isTrue (ext h) else isFalse fun e => h (e ▸ rfl)

def empty : OrderedMap α β := ⟨[], .nil⟩

instance : EmptyCollection (OrderedMap α β) := ⟨empty⟩
instance : Inhabited (OrderedMap α β) := ⟨empty⟩

def size (m : OrderedMap α β) : Nat := m.entries.length

def isEmpty (m : OrderedMap α β) : Bool := m.entries.isEmpty

def keys (m : OrderedMap α β) : List α := m.entries.map Prod.fst

variable [DecidableEq α]

/-- The value under a key in a list of entries. -/
def find? (k : α) : List (α × β) → Option β
  | [] => none
  | (a, b) :: rest => if a = k then some b else find? k rest

def get? (m : OrderedMap α β) (k : α) : Option β := find? k m.entries

def contains (m : OrderedMap α β) (k : α) : Bool := (m.get? k).isSome

/-! ### Insertion -/

/-- Puts a value under a key: in place if the key is there, else at the end. -/
def put (k : α) (v : β) : List (α × β) → List (α × β)
  | [] => [(k, v)]
  | (a, b) :: rest => if a = k then (a, v) :: rest else (a, b) :: put k v rest

theorem keys_put (k : α) (v : β) (l : List (α × β)) :
    (put k v l).map Prod.fst =
      if k ∈ l.map Prod.fst then l.map Prod.fst else l.map Prod.fst ++ [k] := by
  induction l with
  | nil => simp [put]
  | cons e rest ih =>
    obtain ⟨a, b⟩ := e
    by_cases h : a = k
    · simp [put, h]
    · have h' : ¬ k = a := fun e => h e.symm
      by_cases hk : k ∈ rest.map Prod.fst <;> simp_all [put]

theorem nodup_put (k : α) (v : β) {l : List (α × β)} (h : (l.map Prod.fst).Nodup) :
    ((put k v l).map Prod.fst).Nodup := by
  rw [keys_put]
  split
  · exact h
  · next hk =>
    refine List.nodup_append.2 ⟨h, by simp, ?_⟩
    intro a ha b hb e
    rw [List.mem_singleton.1 hb] at e
    exact hk (e ▸ ha)

def insert (m : OrderedMap α β) (k : α) (v : β) : OrderedMap α β :=
  ⟨put k v m.entries, nodup_put k v m.nodup⟩

/-- Puts a value under a key that has none; an existing value stays. -/
def insertNew (m : OrderedMap α β) (k : α) (v : β) : OrderedMap α β :=
  if m.contains k then m else m.insert k v

/-- Applies a function to the value under a key, starting from `absent` if there is
none. -/
def update (m : OrderedMap α β) (k : α) (absent : β) (f : β → β) : OrderedMap α β :=
  m.insert k (f ((m.get? k).getD absent))

/-- Applies a function to the value under a key that is there. -/
def adjust (m : OrderedMap α β) (k : α) (f : β → β) : OrderedMap α β :=
  match m.get? k with
  | none => m
  | some v => m.insert k (f v)

/-- Inserts entries one after the other. -/
def insertAll (m : OrderedMap α β) (entries : List (α × β)) : OrderedMap α β :=
  entries.foldl (fun m e => m.insert e.1 e.2) m

def ofList (entries : List (α × β)) : OrderedMap α β := empty.insertAll entries

/-- Inserts the entries of `patch` in its order. -/
def merge (m patch : OrderedMap α β) : OrderedMap α β := m.insertAll patch.entries

/-! ### Removal -/

def erase (m : OrderedMap α β) (k : α) : OrderedMap α β :=
  ⟨m.entries.filter (fun e => decide (e.1 ≠ k)),
    m.nodup.sublist (List.filter_sublist.map _)⟩

end OrderedMap

end PropertyGraph
