import SchemaQuery.Json.Document

/-!
# JSON values

A `Tree` is a JSON value with its members in some order: what a writer writes.  A `Value` is a
tree in canonical form, where the keys of every object increase strictly and every integer
fits 64 bits; it is what a free value of an incoming document means, since there the order of
members carries nothing and the last of several members of one name counts.

## Main definitions

* `Tree` - a value with ordered members.
* `Tree.IsCanonical` - the keys of every object increase strictly and the integers fit.
* `Value` - a canonical tree, and `Value.view`, what it is at its top.
* `Document.toTree?` - the canonical tree of a document.

## Main statements

* `Document.toTree?_isCanonical` - the tree of a document is canonical.
-/

namespace SchemaQuery.Json

/-! ## Trees -/

/-- A JSON value whose objects keep their members in order. -/
inductive Tree where
  | null
  | bool (value : Bool)
  | number (value : Number)
  | text (value : String)
  | array (items : List Tree)
  | object (members : List (String × Tree))

/-- The keys of a list of members increase strictly; keys are compared by code points. -/
def KeysIncrease (members : List (String × Tree)) : Prop :=
  (members.map (·.1)).Pairwise (· < ·)

namespace Tree

mutual

/-- In every object of the tree the keys increase strictly, and every integer fits 64 bits. -/
def IsCanonical : Tree → Prop
  | .number n => n.Fits
  | .array items => AreCanonical items
  | .object members => KeysIncrease members ∧ MembersCanonical members
  | _ => True

/-- `IsCanonical` for every item of an array. -/
def AreCanonical : List Tree → Prop
  | [] => True
  | item :: rest => item.IsCanonical ∧ AreCanonical rest

/-- `IsCanonical` for every member of an object. -/
def MembersCanonical : List (String × Tree) → Prop
  | [] => True
  | (_, value) :: rest => value.IsCanonical ∧ MembersCanonical rest

end

mutual

/-- How many arrays and objects are nested in one another; an empty one counts. -/
def depth : Tree → Nat
  | .array items => itemsDepth items + 1
  | .object members => membersDepth members + 1
  | _ => 0

/-- The greatest depth of the items of an array. -/
def itemsDepth : List Tree → Nat
  | [] => 0
  | item :: rest => max item.depth (itemsDepth rest)

/-- The greatest depth of the members of an object. -/
def membersDepth : List (String × Tree) → Nat
  | [] => 0
  | (_, value) :: rest => max value.depth (membersDepth rest)

end

/-- An integer as a number. -/
def ofInt (i : Int) : Tree := .number (.int i)

end Tree

/-! ## Sorting members -/

/-- Puts a member into an object whose keys increase, in place of a member of the same name. -/
def insertMember (key : String) (value : Tree) : List (String × Tree) → List (String × Tree)
  | [] => [(key, value)]
  | (k, v) :: rest =>
    if key < k then (key, value) :: (k, v) :: rest
    else if key = k then (key, value) :: rest
    else (k, v) :: insertMember key value rest

/-- Sorts members by key; of several members of one name the last remains. -/
def sortMembers (members : List (String × Tree)) : List (String × Tree) :=
  members.foldl (fun sorted member => insertMember member.1 member.2 sorted) []

theorem mem_keys_insertMember {key k : String} {value : Tree} {members : List (String × Tree)}
    (mem : k ∈ (insertMember key value members).map (·.1)) :
    k = key ∨ k ∈ members.map (·.1) := by
  induction members with
  | nil => simpa [insertMember] using mem
  | cons member rest ih =>
    obtain ⟨k', v'⟩ := member
    simp only [insertMember] at mem
    split at mem
    · simpa using mem
    · split at mem
      · rename_i same
        simp only [List.map_cons, List.mem_cons] at mem ⊢
        exact mem.imp id Or.inr
      · simp only [List.map_cons, List.mem_cons] at mem ⊢
        rcases mem with mem | mem
        · exact .inr (.inl mem)
        · exact (ih mem).imp id Or.inr

theorem keysIncrease_insertMember {key : String} {value : Tree} {members : List (String × Tree)}
    (increase : KeysIncrease members) : KeysIncrease (insertMember key value members) := by
  induction members with
  | nil => simp [insertMember, KeysIncrease]
  | cons member rest ih =>
    obtain ⟨k, v⟩ := member
    have step := List.pairwise_cons.1 increase
    simp only [insertMember]
    split
    · rename_i before
      refine List.pairwise_cons.2 ⟨fun k' mem => ?_, increase⟩
      rcases List.mem_cons.1 mem with mem | mem
      · exact mem ▸ before
      · exact String.lt_trans before (step.1 k' mem)
    · split
      · rename_i same
        subst same
        exact List.pairwise_cons.2 ⟨step.1, step.2⟩
      · rename_i notBefore differ
        have after : k < key := by
          by_cases lt : k < key
          · exact lt
          · have same := String.le_antisymm (String.not_lt.1 lt) (String.not_lt.1 notBefore)
            exact absurd same differ
        refine List.pairwise_cons.2 ⟨fun k' mem => ?_, ih step.2⟩
        rcases mem_keys_insertMember mem with mem | mem
        · exact mem ▸ after
        · exact step.1 k' mem

theorem membersCanonical_insertMember {key : String} {value : Tree}
    {members : List (String × Tree)} (canonical : value.IsCanonical)
    (all : Tree.MembersCanonical members) :
    Tree.MembersCanonical (insertMember key value members) := by
  induction members with
  | nil => exact ⟨canonical, trivial⟩
  | cons member rest ih =>
    obtain ⟨k, v⟩ := member
    simp only [insertMember]
    split
    · exact ⟨canonical, all⟩
    · split
      · exact ⟨canonical, all.2⟩
      · exact ⟨all.1, ih all.2⟩

/-- Sorted members form a canonical object if they are canonical one by one. -/
theorem isCanonical_sortMembers {members : List (String × Tree)}
    (all : Tree.MembersCanonical members) :
    (Tree.object (sortMembers members)).IsCanonical := by
  suffices step : ∀ sorted, KeysIncrease sorted → Tree.MembersCanonical sorted →
      (Tree.object (members.foldl (fun sorted member => insertMember member.1 member.2 sorted)
        sorted)).IsCanonical from
    step [] (by simp [KeysIncrease]) trivial
  induction members with
  | nil => exact fun sorted increase canonical => ⟨increase, canonical⟩
  | cons member rest ih =>
    exact fun sorted increase canonical =>
      ih all.2 _ (keysIncrease_insertMember increase)
        (membersCanonical_insertMember all.1 canonical)

/-! ## Values -/

/-- A free JSON value: a tree in which the keys of every object increase strictly and every
integer fits 64 bits. -/
structure Value where
  tree : Tree
  canonical : tree.IsCanonical

namespace Value

/-- The value `null`. -/
def null : Value := ⟨.null, trivial⟩

/-- A text as a value. -/
def text (s : String) : Value := ⟨.text s, trivial⟩

/-- A signed word as a value. -/
def ofInt64 (i : Int64) : Value :=
  ⟨.ofInt i.toInt, ⟨i.le_toInt, Int.lt_trans i.toInt_lt (by decide)⟩⟩

/-- What a value is at its top. -/
inductive View where
  | null
  | bool (value : Bool)
  | number (value : Number)
  | text (value : String)
  | array (items : List Value)
  | object (members : List (String × Value))

/-- The items of a canonical array as values. -/
def itemsOf : (items : List Tree) → Tree.AreCanonical items → List Value
  | [], _ => []
  | item :: rest, canonical => ⟨item, canonical.1⟩ :: itemsOf rest canonical.2

/-- The members of a canonical object as values. -/
def membersOf : (members : List (String × Tree)) → Tree.MembersCanonical members →
    List (String × Value)
  | [], _ => []
  | (key, value) :: rest, canonical => (key, ⟨value, canonical.1⟩) :: membersOf rest canonical.2

/-- The values of a canonical array are its items. -/
@[simp] theorem map_tree_itemsOf (items : List Tree) (canonical : Tree.AreCanonical items) :
    (itemsOf items canonical).map (·.tree) = items := by
  induction items with
  | nil => rfl
  | cons item rest ih => simp [itemsOf, ih canonical.2]

/-- The values of a canonical object are its members. -/
@[simp] theorem map_tree_membersOf (members : List (String × Tree))
    (canonical : Tree.MembersCanonical members) :
    (membersOf members canonical).map (fun member => (member.1, member.2.tree)) = members := by
  induction members with
  | nil => rfl
  | cons member rest ih =>
    obtain ⟨key, value⟩ := member
    simp [membersOf, ih canonical.2]

/-- The top of a value. -/
def view : Value → View
  | ⟨.null, _⟩ => .null
  | ⟨.bool b, _⟩ => .bool b
  | ⟨.number n, _⟩ => .number n
  | ⟨.text s, _⟩ => .text s
  | ⟨.array items, canonical⟩ => .array (itemsOf items canonical)
  | ⟨.object members, canonical⟩ => .object (membersOf members canonical.2)

/-- Whether the value is `null`. -/
def isNull (v : Value) : Bool :=
  match v.view with
  | .null => true
  | _ => false

end Value

/-! ## The value of a document -/

namespace Document

mutual

/-- The canonical tree of a document; `none` if a string names no text or a numeral has no
value. -/
def toTree? : Document → Option Tree
  | .null => some .null
  | .bool b => some (.bool b)
  | .number n => n.value?.map .number
  | .text s => s.map .text
  | .array items => (toTrees? items).map .array
  | .object members => (toMembers? members).map fun members => .object (sortMembers members)

/-- The canonical trees of the items of an array. -/
def toTrees? : List Document → Option (List Tree)
  | [] => some []
  | item :: rest => do
    let item ← item.toTree?
    let rest ← toTrees? rest
    return item :: rest

/-- The members of an object in the order of the document, their values canonical. -/
def toMembers? : List (Option String × Document) → Option (List (String × Tree))
  | [] => some []
  | (key, value) :: rest => do
    let key ← key
    let value ← value.toTree?
    let rest ← toMembers? rest
    return (key, value) :: rest

end

mutual

/-- The tree of a document is canonical. -/
theorem toTree?_isCanonical : ∀ {d : Document} {t : Tree}, d.toTree? = some t → t.IsCanonical
  | .null, _, h => by
    obtain rfl := Option.some.inj h; trivial
  | .bool _, _, h => by
    obtain rfl := Option.some.inj h; trivial
  | .number _, _, h => by
    obtain ⟨_, value, rfl⟩ := Option.map_eq_some_iff.1 h
    exact Numeral.fits_of_value? value
  | .text _, _, h => by
    obtain ⟨_, _, rfl⟩ := Option.map_eq_some_iff.1 h; trivial
  | .array items, _, h => by
    obtain ⟨trees, read, rfl⟩ := Option.map_eq_some_iff.1 h
    exact toTrees?_areCanonical read
  | .object members, _, h => by
    obtain ⟨trees, read, rfl⟩ := Option.map_eq_some_iff.1 h
    exact isCanonical_sortMembers (toMembers?_canonical read)

theorem toTrees?_areCanonical : ∀ {ds : List Document} {ts : List Tree},
    toTrees? ds = some ts → Tree.AreCanonical ts
  | [], _, h => by
    obtain rfl := Option.some.inj h; trivial
  | item :: rest, _, h => by
    simp only [toTrees?, Option.bind_eq_bind, Option.bind_eq_some_iff] at h
    obtain ⟨tree, readItem, trees, readRest, same⟩ := h
    obtain rfl := Option.some.inj same
    exact ⟨toTree?_isCanonical readItem, toTrees?_areCanonical readRest⟩

theorem toMembers?_canonical : ∀ {ms : List (Option String × Document)}
    {ts : List (String × Tree)}, toMembers? ms = some ts → Tree.MembersCanonical ts
  | [], _, h => by
    obtain rfl := Option.some.inj h; trivial
  | (_, value) :: rest, _, h => by
    simp only [toMembers?, Option.bind_eq_bind, Option.bind_eq_some_iff] at h
    obtain ⟨_, _, tree, readValue, trees, readRest, same⟩ := h
    obtain rfl := Option.some.inj same
    exact ⟨toTree?_isCanonical readValue, toMembers?_canonical readRest⟩

end

/-- The canonical value of a document, if it has one. -/
def toValue? (d : Document) : Option Value :=
  match h : d.toTree? with
  | some t => some ⟨t, toTree?_isCanonical h⟩
  | none => none

end Document

end SchemaQuery.Json
