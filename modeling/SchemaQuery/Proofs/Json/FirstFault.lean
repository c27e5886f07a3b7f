import SchemaQuery.Proofs.Json.Reading
import SchemaQuery.Query.Document

/-!
# The first fault counts

A record is read member by member along with its text.  So a member that is at fault is
reported whatever comes after it: another fault, text that is no JSON, or nothing at all.

Where the text goes on as JSON, the reader finds the members in front as they were written, and
where it does not, they stand in front of what is left of the object.  In both cases reading
gets as far as the member at fault and no further.

## Main statements

* `readMembers_front` - what is found of members, whatever follows them.
* `parse_front` - an object is found with its first members, read or broken off.
* `Document.decodeText_of_fault` - **a fault is reported whatever follows it.**
-/

namespace SchemaQuery.Json

open Json.Tree (documentMembers renderMembers)

/-! ## Members in front of a text -/

/-- After a member, a comma leads to what is left of the next. -/
theorem cutMembers_more {fuel : Nat} {key : String} {value : Document} {cs rest : List Char}
    (hvalue : readValue fuel cs = some (value, ',' :: rest)) :
    cutMembers (fuel + 1) (renderString key ++ ':' :: cs)
      = (some key, value) :: cutMembers fuel rest := by
  have hskip (rest : List Char) : skipSpace ('"' :: rest) = '"' :: rest := rfl
  have hcolon : skipSpace (':' :: cs) = ':' :: cs := rfl
  have hcomma : skipSpace (',' :: rest) = ',' :: rest := rfl
  rw [renderString, List.append_assoc, List.cons_append, List.singleton_append, cutMembers]
  simp only [hskip, readString_escaped, hcolon, hvalue, hcomma]

/-- **Members are read as they were written**, if the text goes on with more of them. -/
theorem readMembers_front {rest : List Char} :
    ∀ (key : String) (value : Tree) (members : List (String × Tree)) {fuel : Nat},
      (renderMembers ((key, value) :: members)).length < fuel → ∃ fuel',
      readMembers fuel (renderMembers ((key, value) :: members) ++ ',' :: rest)
          = (readMembers fuel' rest).map
              (fun read => (documentMembers ((key, value) :: members) ++ read.1, read.2)) ∧
        cutMembers fuel (renderMembers ((key, value) :: members) ++ ',' :: rest)
          = documentMembers ((key, value) :: members) ++ cutMembers fuel' rest
  | key, value, [], fuel + 1, hfuel => by
      rw [renderMembers, List.length_append, List.length_cons] at hfuel
      have hvalue : readValue fuel (value.render ++ ',' :: rest)
          = some (value.document, ',' :: rest) :=
        value.readValue_render (by omega) (stops_comma rest)
      rw [renderMembers, List.append_assoc, List.cons_append]
      exact ⟨fuel, readMembers_more hvalue, cutMembers_more hvalue⟩
  | key, value, (nextKey, next) :: members, fuel + 1, hfuel => by
      rw [renderMembers, List.length_append, List.length_append, List.length_cons,
        List.length_cons] at hfuel
      have hvalue : readValue fuel
          (value.render ++ ',' :: (renderMembers ((nextKey, next) :: members) ++ ',' :: rest))
            = some (value.document,
                ',' :: (renderMembers ((nextKey, next) :: members) ++ ',' :: rest)) :=
        value.readValue_render (by omega) (stops_comma _)
      have hmembers : (renderMembers ((nextKey, next) :: members)).length < fuel := by omega
      obtain ⟨fuel', hread, hcut⟩ := readMembers_front nextKey next members hmembers
      rw [renderMembers]
      simp only [List.append_assoc, List.cons_append]
      refine ⟨fuel', ?_, ?_⟩
      · rw [readMembers_more hvalue, hread, Option.map_map]
        rfl
      · rw [cutMembers_more hvalue, hcut]
        rfl

/-- After a brace, what is left of the members of an object is read. -/
theorem cutValue_object (fuel : Nat) (key : String) (cs : List Char) :
    cutValue (fuel + 1) ('\x7b' :: (renderString key ++ cs))
      = .object (cutMembers fuel (renderString key ++ cs)) := by
  rw [cutValue]
  rfl

/-- **An object is found with its members in front as they were written**, if it goes on in some
way; if it does not go on as JSON, they are in front of what is left of it. -/
theorem parse_front (key : String) (value : Tree) (members : List (String × Tree))
    (rest : List Char) :
    let cs := '\x7b' :: (renderMembers ((key, value) :: members) ++ ',' :: rest)
    let front := documentMembers ((key, value) :: members)
    (∀ d tail, Document.parseStart? cs = some (d, tail) → ∃ more, d = .object (front ++ more)) ∧
      ∃ more, Document.parseCut cs = .object (front ++ more) := by
  intro cs front
  have hfuel : (renderMembers ((key, value) :: members)).length < cs.length := by
    simp only [cs, List.length_cons, List.length_append]
    omega
  obtain ⟨fuel, hread, hcut⟩ := readMembers_front key value members hfuel
  obtain ⟨tail, htail⟩ := Tree.renderMembers_cons key value members (',' :: rest)
  have hcs : cs = '\x7b' :: (renderString key ++ tail) := by simp only [cs, htail]
  constructor
  · intro d tail' hparse
    have hobject : Document.parseStart? cs
        = ((readMembers fuel rest).map fun read => (front ++ read.1, read.2)).map
            fun read => (.object read.1, read.2) := by
      rw [← hread, htail, Document.parseStart?, ← readValue_object cs.length key tail, ← hcs]
    rw [hobject, Option.map_map, Option.map_eq_some_iff] at hparse
    obtain ⟨read, -, hread'⟩ := hparse
    exact ⟨read.1, (Prod.mk.inj hread').1.symm⟩
  · refine ⟨cutMembers fuel rest, ?_⟩
    rw [← hcut, htail, Document.parseCut, ← cutValue_object cs.length key tail, ← hcs]

/-! ## Faults in front of a text -/

namespace Record

variable {α : Type} {r : Record α} {e : DecodeError}

/-- A member at fault ends the reading of a record. -/
theorem readMembers_append_of_error {front : List (Option String × Document)} {met : List String}
    {acc : α} (h : r.readMembers met acc front = .error e)
    (more : List (Option String × Document)) :
    r.readMembers met acc (front ++ more) = .error e := by
  induction front generalizing met acc with
  | nil => cases h
  | cons member front ih =>
      obtain ⟨key?, value⟩ := member
      cases key? with
      | none => exact h
      | some key =>
          rw [List.cons_append]
          rw [readMembers] at h ⊢
          split_ifs at h ⊢
          · exact h
          · cases hplace : under (.member key) (r.place acc key value) with
            | error fault =>
                rw [hplace] at h
                exact h
            | ok acc' =>
                rw [hplace] at h
                exact ih h
          · exact ih h

/-- **A record is not read past a member at fault.** -/
theorem ofMembers_append_of_error {front : List (Option String × Document)}
    (h : r.readMembers [] r.blank front = .error e) (more : List (Option String × Document)) :
    r.ofMembers (front ++ more) = .error e := by
  rw [ofMembers, readMembers_append_of_error h more]
  rfl

end Record

namespace Document

variable {α : Type} {r : Record α} {e : DecodeError}

/-- **A fault is reported whatever follows it.**  If a record cannot be read for some of its
members, then a text in which they come first is refused for the same reason, however it goes
on. -/
theorem decodeText_of_fault {members : List (String × Tree)}
    (h : r.readMembers [] r.blank (documentMembers members) = .error e) (rest : List Char) :
    decodeText (toRecord r .text)
      (String.ofList ('\x7b' :: (renderMembers members ++ ',' :: rest))) = .error e := by
  cases members with
  | nil => cases h
  | cons member members =>
      obtain ⟨key, value⟩ := member
      obtain ⟨hstart, more, hcut⟩ := parse_front key value members rest
      have hrefused (more : List (Option String × Document)) :
          toRecord r .text (.object (documentMembers ((key, value) :: members) ++ more))
            = .error e := Record.ofMembers_append_of_error h more
      rw [decodeText, String.toList_ofList, decodeStart]
      cases hparse : parseStart?
          ('\x7b' :: (renderMembers ((key, value) :: members) ++ ',' :: rest)) with
      | none =>
          dsimp only
          rw [hcut, hrefused]
          rfl
      | some start =>
          obtain ⟨d, tail⟩ := start
          obtain ⟨more, rfl⟩ := hstart d tail hparse
          dsimp only
          rw [hrefused]
          rfl

/-- A number for the name of a model is reported, whatever becomes of the rest of the query. -/
example (rest : List Char) :
    Query.ofText (String.ofList
        ('\x7b' :: (renderMembers [("model", .number (.int 5))] ++ ',' :: rest)))
      = .error (.data [.member "model"] (.wrongType (.number (.int 5)) "a string")) :=
  decodeText_of_fault (by cbv) rest

end Document

end SchemaQuery.Json
