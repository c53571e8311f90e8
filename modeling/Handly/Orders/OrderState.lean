import Handly.Contracts

/-!
# The order transition table

`order-state.ts`: which status may follow which, the statuses in which the
customer may still edit, and those in which a master is occupied.
-/

namespace Handly

open OrderStatus

/-- `TRANSITIONS`: the statuses that may follow a status. -/
def transitions : OrderStatus → List OrderStatus
  | draft => [priced, cancelledByCustomer]
  | priced => [priced, draft, searching, cancelledByCustomer]
  | searching => [assigned, expired, cancelledByCustomer]
  | assigned => [enRoute, cancelledByCustomer, cancelledByMaster]
  | enRoute => [inProgress, cancelledByCustomer, cancelledByMaster]
  | inProgress => [completed]
  | completed => [closed]
  | _ => []

/-- May an order go from one status to the other? -/
def canTransition (s t : OrderStatus) : Bool := (transitions s).contains t

/-- `EDITABLE_STATUSES`: the customer may still edit the request. -/
def editableStatuses : List OrderStatus := [draft, priced]

/-- `ACTIVE_MASTER_JOB_STATUSES`: a master is occupied by the job. -/
def activeMasterJobStatuses : List OrderStatus := [assigned, enRoute, inProgress, completed]

namespace OrderStatus

/-- The order still belongs to its customer's draft. -/
def Editable (s : OrderStatus) : Prop := s ∈ editableStatuses

/-- A master is working on the order. -/
def Active (s : OrderStatus) : Prop := s ∈ activeMasterJobStatuses

/-- No transition leaves the status. -/
def Terminal (s : OrderStatus) : Prop := transitions s = []

instance : DecidablePred Editable := fun s => inferInstanceAs (Decidable (s ∈ editableStatuses))
instance : DecidablePred Active :=
  fun s => inferInstanceAs (Decidable (s ∈ activeMasterJobStatuses))
instance : DecidablePred Terminal := fun s => inferInstanceAs (Decidable (transitions s = []))

/-- How far a submitted order has come: every transition out of SEARCHING or a
later status goes strictly further. -/
def progress : OrderStatus → ℕ
  | draft | priced => 0
  | searching => 1
  | assigned => 2
  | enRoute => 3
  | inProgress => 4
  | completed => 5
  | closed | cancelledByCustomer | cancelledByMaster | expired | disputed => 6

end OrderStatus

theorem editable_iff {s : OrderStatus} : s.Editable ↔ s = draft ∨ s = priced := by
  cases s <;> decide

theorem active_assigned : assigned.Active := by decide

theorem not_active_draft : ¬ draft.Active := by decide
theorem not_active_priced : ¬ priced.Active := by decide
theorem not_active_searching : ¬ searching.Active := by decide
theorem not_active_expired : ¬ expired.Active := by decide

/-! ### Who can enter a status -/

theorem canTransition_draft {s : OrderStatus} : canTransition s draft = true ↔ s = priced := by
  cases s <;> decide

theorem canTransition_priced {s : OrderStatus} :
    canTransition s priced = true ↔ s = draft ∨ s = priced := by
  cases s <;> decide

theorem canTransition_searching {s : OrderStatus} :
    canTransition s searching = true ↔ s = priced := by
  cases s <;> decide

theorem canTransition_assigned {s : OrderStatus} :
    canTransition s assigned = true ↔ s = searching := by
  cases s <;> decide

theorem canTransition_expired {s : OrderStatus} :
    canTransition s expired = true ↔ s = searching := by
  cases s <;> decide

/-- A transition into an active status other than ASSIGNED leaves an active one. -/
theorem active_of_canTransition {s t : OrderStatus} (h : canTransition s t = true)
    (ht : t.Active) (hne : t ≠ assigned) : s.Active := by
  revert h ht hne
  cases s <;> cases t <;> decide

/-- A terminal status is left by no transition. -/
theorem not_canTransition_of_terminal {s t : OrderStatus} (h : s.Terminal) :
    canTransition s t = false := by
  unfold canTransition
  rw [h]
  rfl

/-- A transition into SEARCHING or a later status goes strictly further. -/
theorem progress_lt_of_canTransition {s t : OrderStatus} (h : canTransition s t = true)
    (ht : ¬ t.Editable) : s.progress < t.progress := by
  revert h ht
  cases s <;> cases t <;> decide

end Handly
