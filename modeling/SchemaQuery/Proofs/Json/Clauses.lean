import Mathlib.Data.List.Nodup
import SchemaQuery.Proofs.Json.Writing
import SchemaQuery.Query.Document

/-!
# Objects that leave out some of their clauses

A record is written as an object with a member for each of its clauses, and clauses that are
not given are left out.  No confusion arises from this: a member is found by its name, and no
name stands twice in an object.

## Main definitions

* `clausesOf` - the members of an object some of whose clauses are not given.
* `listClause` - a list as a clause, which is not given when the list is empty.

## Main statements

* `render_clausesOf_inj` - objects have the same text exactly when their clauses have.
-/

namespace SchemaQuery

open Json (Tree)
open Json.Tree (render written render_object_inj)

/-- The members of an object that leaves out the clauses that are not given. -/
def clausesOf : List (String × Option Tree) → List (String × Tree)
  | [] => []
  | (name, clause) :: rest => optionMember name id clause ++ clausesOf rest

/-- A list as a clause, which is not given when the list is empty. -/
def listClause {α : Type} (write : α → Tree) (xs : List α) : Option Tree :=
  if xs.isEmpty then none else some (.array (xs.map write))

theorem optionMember_eq {α : Type} {name : String} {write : α → Tree} {x : Option α} :
    optionMember name write x = optionMember name id (x.map write) := by
  cases x <;> rfl

theorem listMember_eq {α : Type} {name : String} {write : α → Tree} {xs : List α} :
    listMember name write xs = optionMember name id (listClause write xs) := by
  unfold listMember listClause
  split <;> rfl

/-- A member of an object bears the name of one of its clauses. -/
theorem mem_names_of_mem_clausesOf {clauses : List (String × Option Tree)} {member : String × Tree}
    (h : member ∈ clausesOf clauses) : member.1 ∈ clauses.map (·.1) := by
  induction clauses with
  | nil => exact absurd h List.not_mem_nil
  | cons clause rest ih =>
      obtain ⟨name, content⟩ := clause
      rw [clausesOf, List.mem_append] at h
      rw [List.map_cons, List.mem_cons]
      refine h.imp (fun hhead => ?_) ih
      cases content with
      | none => exact absurd hhead List.not_mem_nil
      | some tree => exact congrArg Prod.fst (List.mem_singleton.mp hhead)

/-- **Objects with the same clauses by name have the same text exactly when clause by clause
their contents have.**  Only the first clauses are compared; since its name does not occur
again, what one object leaves out cannot be made up for by the rest of the other. -/
theorem render_clausesOf_inj {xs ys : List (String × Option Tree)}
    (hnames : xs.map (·.1) = ys.map (·.1)) (hnodup : (xs.map (·.1)).Nodup) :
    (Tree.object (clausesOf xs)).render = (Tree.object (clausesOf ys)).render ↔
      xs.map (·.2.map render) = ys.map (·.2.map render) := by
  rw [render_object_inj]
  induction xs generalizing ys with
  | nil =>
      obtain rfl := List.map_eq_nil_iff.mp hnames.symm
      simp
  | cons x xs ih =>
      obtain ⟨name, content⟩ := x
      obtain ⟨⟨name', content'⟩, ys, rfl⟩ : ∃ y ys', ys = y :: ys' := by
        cases ys with
        | nil => simp at hnames
        | cons y ys => exact ⟨y, ys, rfl⟩
      simp only [List.map_cons, List.cons.injEq] at hnames
      obtain ⟨rfl, hrest⟩ := hnames
      obtain ⟨hnew, hnodup⟩ := List.nodup_cons.mp hnodup
      have habsent {tree : Tree} {zs : List (String × Option Tree)} {ms : List (String × List Char)}
          (hzs : name ∉ zs.map (·.1)) :
          written (name, tree) :: ms ≠ (clausesOf zs).map written := by
        intro h
        obtain ⟨member, hmember, hwritten⟩ := List.mem_map.mp (h ▸ List.mem_cons_self)
        have hname : member.1 = name := congrArg Prod.fst hwritten
        exact hzs (hname ▸ mem_names_of_mem_clausesOf hmember)
      rw [List.map_cons, List.map_cons, List.cons.injEq, ← ih hrest hnodup]
      cases content with
      | none =>
          cases content' with
          | none => simp [clausesOf, optionMember]
          | some tree => simpa [clausesOf, optionMember] using (habsent hnew).symm
      | some tree =>
          cases content' with
          | none => simpa [clausesOf, optionMember] using habsent (hrest ▸ hnew)
          | some tree' => simp [clausesOf, optionMember, written]

/-- A list whose items are told apart by their texts is told by its text. -/
theorem listClause_inj {α : Type} {write : α → Tree} {xs ys : List α}
    (hwrite : ∀ {x y}, (write x).render = (write y).render → x = y) :
    (listClause write xs).map render = (listClause write ys).map render ↔ xs = ys := by
  have hitems : xs.map (render ∘ write) = ys.map (render ∘ write) ↔ xs = ys :=
    List.map_inj_right fun _ _ => hwrite
  cases xs <;> cases ys <;> simp [listClause, ← hitems]

end SchemaQuery
