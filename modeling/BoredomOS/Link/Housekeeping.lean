/-
The housekeeping cycle of a port: the heap values and the tasks that exist, one a call, in the order of the
table and round again. The cursor is the port's own and passes over the tasks that do not exist, so a call
always finds a value and what one port is told does not depend on the other.
-/
import BoredomOS.Lib.RoundRobin
import BoredomOS.Link.TaskMavlink

namespace BoredomOS.Link

open Log (ascii)
open RoundRobin

/-! ## The slots -/

/-- A heap value, or a task that exists. -/
def slotIsLive (handles : HousekeepingTask → Bool) (slot : Fin 9) : Bool :=
  Fin.cases true (fun slot : Fin 8 => Fin.cases true (fun slot : Fin 7 => handles (TaskMavlink.kHousekeepingTasks slot).1) slot) slot

def slotName (slot : Fin 9) : List UInt8 :=
  Fin.cases (ascii "HeapFree") (fun slot : Fin 8 =>
    Fin.cases (ascii "HeapMin") (fun slot : Fin 7 => (TaskMavlink.kHousekeepingTasks slot).2) slot) slot

def slotValue (r : Readings) (slot : Fin 9) : UInt32 :=
  Fin.cases r.freeHeapSize (fun slot : Fin 8 => Fin.cases r.minimumEverFreeHeapSize (fun slot : Fin 7 =>
    r.stackHighWaterMark (TaskMavlink.kHousekeepingTasks slot).1) slot) slot

theorem slotName_injective : Function.Injective slotName := by
  intro a b
  revert a b
  decide

/-- The slots a port is told, from its cursor on. -/
def liveSlots (handles : HousekeepingTask → Bool) (cursor : Fin 9) : List (Fin 9) :=
  lap (slotIsLive handles) (List.finRange 9) cursor

/-- The heap is always told. -/
theorem zero_mem_liveSlots (handles : HousekeepingTask → Bool) (cursor : Fin 9) : 0 ∈ liveSlots handles cursor :=
  (mem_lap _ _).2 ⟨List.mem_finRange 0, rfl⟩

namespace TaskMavlink

theorem housekeepingValue_eq (slot : Fin 9) (handles : HousekeepingTask → Bool) (r : Readings) :
    housekeepingValue slot handles r = if slotIsLive handles slot then some (slotName slot, slotValue r slot) else none := by
  cases slot using Fin.cases with
  | zero => rfl
  | succ slot =>
    cases slot using Fin.cases with
    | zero => rfl
    | succ slot => rfl

/-- The cursor stands at its entry of the table, and goes to the next. -/
theorem rotate_cursor (cursor : Fin 9) : ((List.finRange 9).rotate cursor).head? = some cursor ∧
    (finRotate 9 cursor).val = (cursor.val + 1) % (List.finRange 9).length := by
  constructor
  · rw [List.head?_rotate (by simp), List.getElem?_eq_getElem (by simp), List.getElem_finRange]
    rfl
  · rw [finRotate_apply, Fin.val_add]
    rfl

variable (s : TaskMavlink)

/-- The tries left reach a slot to tell: it is the first of the lap, and goes to the back of it. -/
theorem nextHousekeepingValueIn_lap (port : Fin 2) (r : Readings) : ∀ (tries : Nat) (s : TaskMavlink),
    (∃ slot ∈ ((List.finRange 9).rotate (s.housekeepingCursor port)).take tries, slotIsLive s.handles slot = true) →
    ∃ slot cursor, nextHousekeepingValueIn port r tries s = (some (slotName slot, slotValue r slot),
        { s with housekeepingCursor := Function.update s.housekeepingCursor port cursor }) ∧
      (liveSlots s.handles (s.housekeepingCursor port)).head? = some slot ∧
      liveSlots s.handles cursor = (liveSlots s.handles (s.housekeepingCursor port)).rotate 1
  | 0, s, h => by simp at h
  | tries + 1, s, h => by
    obtain ⟨hhead, hnext⟩ := rotate_cursor (s.housekeepingCursor port)
    have hmoved : liveSlots s.handles (finRotate 9 (s.housekeepingCursor port)) =
        lap (slotIsLive s.handles) (List.finRange 9) (s.housekeepingCursor port + 1) := by
      unfold liveSlots
      rw [hnext, lap_mod]
    unfold nextHousekeepingValueIn
    dsimp only
    rw [housekeepingValue_eq]
    cases hlive : slotIsLive s.handles (s.housekeepingCursor port) with
    | true =>
      obtain ⟨hfirst, hrest⟩ := lap_of_live hhead hlive
      exact ⟨_, _, rfl, hfirst, hmoved.trans hrest⟩
    | false =>
      have hskip := hmoved.trans (lap_of_not_live hhead hlive)
      obtain ⟨rest, hcursor, hrest⟩ := rotate_succ hhead
      -- the slot that is to be told is not the one just passed
      have hreach : ∃ slot ∈ ((List.finRange 9).rotate (finRotate 9 (s.housekeepingCursor port))).take tries,
          slotIsLive s.handles slot = true := by
        obtain ⟨slot, hslot, hslot_live⟩ := h
        rw [hcursor, List.take_succ_cons] at hslot
        rcases List.mem_cons.1 hslot with rfl | hslot
        · rw [hlive] at hslot_live
          cases hslot_live
        · refine ⟨slot, ?_, hslot_live⟩
          rw [hnext, List.rotate_mod, hrest, List.take_append]
          exact List.mem_append_left _ hslot
      obtain ⟨slot, cursor, hcall, hfirst, hback⟩ := nextHousekeepingValueIn_lap port r tries
        { s with housekeepingCursor := Function.update s.housekeepingCursor port (finRotate 9 (s.housekeepingCursor port)) }
        (by simpa only [Function.update_self] using hreach)
      simp only [Function.update_self, Function.update_idem] at hcall hfirst hback
      rw [hskip] at hfirst hback
      exact ⟨slot, cursor, hcall, hfirst, hback⟩

/-- A call always finds a value, the first of the lap. -/
theorem nextHousekeepingValue_spec (port : Fin 2) (r : Readings) : ∃ slot cursor,
    s.nextHousekeepingValue port r = (some (slotName slot, slotValue r slot),
        { s with housekeepingCursor := Function.update s.housekeepingCursor port cursor }) ∧
      (liveSlots s.handles (s.housekeepingCursor port)).head? = some slot ∧
      liveSlots s.handles cursor = (liveSlots s.handles (s.housekeepingCursor port)).rotate 1 := by
  apply nextHousekeepingValueIn_lap
  obtain ⟨hmem, hlive⟩ := (mem_lap _ _).1 (zero_mem_liveSlots s.handles (s.housekeepingCursor port))
  refine ⟨0, ?_, hlive⟩
  rw [List.take_of_length_le (by simp), List.mem_rotate]
  exact hmem

/-! ## A run of calls -/

/-- Calls for either port, each with what it reads: what each returned, and the cursors they leave. -/
def housekeepingCalls : List (Fin 2 × Readings) → TaskMavlink → List (Fin 2 × Option (List UInt8 × UInt32)) × TaskMavlink
  | [], s => ([], s)
  | (port, r) :: calls, s =>
    let (value, s) := s.nextHousekeepingValue port r
    let (values, s) := housekeepingCalls calls s
    ((port, value) :: values, s)

/-- What the calls for one port returned. -/
def toldTo (port : Fin 2) (calls : List (Fin 2 × Readings)) : List (Option (List UInt8 × UInt32)) :=
  ((housekeepingCalls calls s).1.filter fun x => x.1 = port).map Prod.snd

/-- The `k`-th reading of a port is that of slot `k` of its lap, counted round. -/
theorem toldTo_eq (port : Fin 2) : ∀ (calls : List (Fin 2 × Readings)) (s : TaskMavlink), s.toldTo port calls =
    ((calls.filter fun x => x.1 = port).map Prod.snd).mapIdx fun k r =>
      ((liveSlots s.handles (s.housekeepingCursor port)).rotate k).head?.map fun slot => (slotName slot, slotValue r slot)
  | [], _ => rfl
  | (p, r) :: calls, s => by
    obtain ⟨slot, cursor, hcall, hfirst, hback⟩ := s.nextHousekeepingValue_spec p r
    have hrest := toldTo_eq port calls { s with housekeepingCursor := Function.update s.housekeepingCursor p cursor }
    unfold toldTo at hrest ⊢
    simp only [housekeepingCalls, hcall]
    by_cases hp : p = port
    · subst hp
      rw [List.filter_cons_of_pos (by simp), List.filter_cons_of_pos (by simp), List.map_cons, List.map_cons, List.mapIdx_cons]
      rw [hrest, List.rotate_zero, hfirst]
      simp only [Function.update_self, hback, List.rotate_rotate, Nat.add_comm 1]
      rfl
    · rw [List.filter_cons_of_neg (by simpa using hp), List.filter_cons_of_neg (by simpa using hp), hrest]
      simp only [Function.update_of_ne (Ne.symm hp)]

/-- For any tasks that exist, from any cursors and for any calls on the two ports: what a port is told are the
live slots in the order of the table, round and round from its cursor, each under its own name, and the
calls for the other port make no difference. -/
theorem housekeeping_cycles (s : TaskMavlink) (calls : List (Fin 2 × Readings)) (port : Fin 2) :
    (∀ x ∈ (housekeepingCalls calls s).1, x.2.isSome = true) ∧
    (s.toldTo port calls = ((calls.filter fun x => x.1 = port).map Prod.snd).mapIdx fun k r =>
      let live := liveSlots s.handles (s.housekeepingCursor port)
      live[k % live.length]?.map fun slot => (slotName slot, slotValue r slot)) ∧
    Function.Injective slotName ∧
    ∀ calls', (calls'.filter fun x => x.1 = port) = (calls.filter fun x => x.1 = port) →
      s.toldTo port calls' = s.toldTo port calls := by
  refine ⟨?_, ?_, slotName_injective, ?_⟩
  · induction calls generalizing s with
    | nil => simp [housekeepingCalls]
    | cons call calls ih =>
      obtain ⟨slot, cursor, hcall, -, -⟩ := s.nextHousekeepingValue_spec call.1 call.2
      simp only [housekeepingCalls, hcall, List.forall_mem_cons]
      exact ⟨rfl, ih _⟩
  · rw [toldTo_eq]
    simp only [head?_rotate_mod]
  · intro calls' hsame
    rw [toldTo_eq, toldTo_eq, hsame]

end TaskMavlink

end BoredomOS.Link
