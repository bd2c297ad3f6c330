import PodCosts.Proofs.Records.Hierarchies

/-!
# Deeper limits

A limit on the depth of a document only ever refuses. What a reader accepts within a limit it reads
alike within the next greater one, so a record may be moved from deep inside an answer to the top of
a document of its own.
-/

namespace PodCosts

namespace Node

variable {α : Type} {read : Nat → Node → Option α} {depth : Nat}

/-- Whether what is accepted within a depth is read alike one level deeper. -/
def Widens (read : Nat → Node → Option α) (depth : Nat) : Prop :=
  ∀ node value, read depth node = some value → read (depth + 1) node = some value

/-- A list is read alike if its items are. -/
theorem widens_list? (h : ∀ inner < depth, Widens read inner) : Widens (list? read) depth := by
  intro node values hread
  cases depth with
  | zero => cases node <;> cases hread
  | succ inner =>
      cases node with
      | array items =>
          have hitems := forall₂_of_mapM_eq_some hread
          exact mapM_eq_some_of_forall₂ (hitems.imp (h inner (Nat.lt_succ_self inner)))
      | _ => cases hread

/-- A field is read alike if its value is. -/
theorem field?_widens (h : Widens read depth) {fields : List (String × Node)} {name : String}
    {absent value : α} (hread : field? fields name absent (read depth) = some value) :
    field? fields name absent (read (depth + 1)) = some value := by
  rw [field?] at hread ⊢
  cases hget : Fields.get? name fields with
  | none => rwa [hget] at hread
  | some node =>
      rw [hget] at hread
      exact h node value hread

/-- A record is read alike if its fields are. -/
theorem widens_record? {names : List String} {read : Nat → List (String × Node) → Option α}
    (h : ∀ inner < depth, ∀ fields value, read inner fields = some value →
      read (inner + 1) fields = some value) : Widens (record? names read) depth := by
  intro node value hread
  cases depth with
  | zero => cases hread
  | succ inner =>
      obtain ⟨fields, hfields, hvalue⟩ := Option.bind_eq_some_iff.mp hread
      rw [record?_of_fields? hfields]
      exact h inner (Nat.lt_succ_self inner) fields value hvalue

end Node

/-- An interaction is read alike one level deeper. -/
theorem Interaction.widens (depth : Nat) : Node.Widens ofNode? depth :=
  Node.widens_record? fun _ _ _ _ hread => hread

/-- A service is read alike one level deeper. -/
theorem ServiceRef.widens (depth : Nat) : Node.Widens ofNode? depth :=
  Node.widens_record? fun _ _ _ _ hread => hread

/-- A pod is read alike one level deeper. -/
theorem Pod.widens (depth : Nat) : Node.Widens ofNode? depth := by
  refine Node.widens_record? fun inner _ fields pod hread => ?_
  simp only [Option.bind_eq_bind, Option.bind_eq_some_iff, Option.some.injEq] at hread ⊢
  obtain ⟨uid, huid, name, hname, startTime, hstart, endTime, hend, cpuPrice, hcpu, memoryPrice,
    hmemory, interactions, hinteractions, services, hservices, rfl⟩ := hread
  have hpod := Node.field?_widens (Node.widens_list? fun inner _ => Interaction.widens inner)
    hinteractions
  have hcid := Node.field?_widens (Node.widens_list? fun inner _ => ServiceRef.widens inner)
    hservices
  exact ⟨uid, huid, name, hname, startTime, hstart, endTime, hend, cpuPrice, hcpu, memoryPrice,
    hmemory, interactions, hpod, services, hcid, rfl⟩

/-- The children of a node lie two levels deeper, so the induction is on the depth. -/
theorem Hierarchy.widens (depth : Nat) : Node.Widens ofNode? depth := by
  induction depth using Nat.strongRecOn with
  | ind depth ih =>
      intro node hierarchy hread
      rw [ofNode?_eq_record?] at hread ⊢
      refine Node.widens_record? ?_ node hierarchy hread
      intro inner hinner fields hierarchy hread
      simp only [ofFields?, Option.bind_eq_bind, Option.bind_eq_some_iff] at hread ⊢
      obtain ⟨name, hname, type, htype, children, hchildren, hrest⟩ := hread
      have hlist := Node.field?_widens
        (Node.widens_list? fun deeper hdeeper => ih deeper (by omega)) hchildren
      exact ⟨name, hname, type, htype, children, hlist, hrest⟩

end PodCosts
