/-
The queues behind the notes `TaskMavlink` keeps of its sends. Whatever the other tasks do with a write queue or
with `sdWriteQueue` in between: what `offered` gains for a port is what was sent to the write queue of that port,
in order, and what `recorded` gains is what was sent to `sdWriteQueue`.
-/
import Mathlib.Data.Set.Insert
import BoredomOS.Lib.Shared
import BoredomOS.Link.TaskMavlink

namespace BoredomOS.Link

open Log (LogRequestKind SdLogRequestPayload SdRecord SdWriteQueue)
open Shared

/-! ## What the others do -/

/-- What a write queue has become by a step that finds one of these readings. -/
def Outbound.UsedBy (found : Set Readings) (o o' : Outbound) : Prop :=
  ∃ r ∈ found, o' = { o with writeQueue := r.writeQueue o.writeQueue }

def SdUsedBy (found : Set Readings) (q q' : SdWriteQueue) : Prop := ∃ r ∈ found, q' = r.sdWriteQueue q

abbrev Outbound.Sent (found : Set Readings) : List LinkMsg → Outbound → Outbound → Prop :=
  Shared.Sent (UsedBy found) enqueueWrite

abbrev SdSent (found : Set Readings) : List SdRecord → SdWriteQueue → SdWriteQueue → Prop :=
  Shared.Sent (SdUsedBy found) fun q x => (Log.xQueueSend q x).2

/-- The steps that find these leave the queues as they were. -/
def Idle (found : Set Readings) : Prop := ∀ r ∈ found, (∀ q, r.writeQueue q = q) ∧ ∀ q, r.sdWriteQueue q = q

theorem Outbound.Sent.eq_foldl {found : Set Readings} {items : List LinkMsg} {o o' : Outbound} (h : Outbound.Sent found items o o')
    (hidle : Idle found) : o' = items.foldl enqueueWrite o := by
  refine Shared.Sent.eq_foldl ?_ h
  rintro o o' ⟨r, hr, rfl⟩
  rw [(hidle r hr).1]

theorem SdSent.eq_foldl {found : Set Readings} {records : List SdRecord} {q q' : SdWriteQueue} (h : SdSent found records q q')
    (hidle : Idle found) : q' = records.foldl (fun q x => (Log.xQueueSend q x).2) q := by
  refine Shared.Sent.eq_foldl ?_ h
  rintro q q' ⟨r, hr, rfl⟩
  exact (hidle r hr).2 q

/-! ## A part of a pass -/

/-- The items for a port. -/
def sentTo (port : Fin 2) (items : List (Fin 2 × LinkMsg)) : List LinkMsg :=
  items.filterMap fun x => if x.1 = port then some x.2 else none

theorem sentTo_append (port : Fin 2) (items items' : List (Fin 2 × LinkMsg)) :
    sentTo port (items ++ items') = sentTo port items ++ sentTo port items' := List.filterMap_append

theorem sentTo_singleton (port : Fin 2) (x : Fin 2 × LinkMsg) : sentTo port [x] = if x.1 = port then [x.2] else [] := by
  unfold sentTo
  by_cases hport : x.1 = port <;> simp [hport]

namespace TaskMavlink

/-- A part of a pass that sends these items and records, and finds these readings in between. -/
structure Sends (found : Set Readings) (items : List (Fin 2 × LinkMsg)) (records : List SdRecord) (s s' : TaskMavlink) :
    Prop where
  offered : s'.offered = s.offered ++ items
  outbound : ∀ port, Outbound.Sent found (sentTo port items) (s.outbound port) (s'.outbound port)
  recorded : s'.recorded = s.recorded ++ records
  sdWriteQueue : SdSent found records s.sdWriteQueue s'.sdWriteQueue

namespace Sends

variable {found found' : Set Readings} {items items' : List (Fin 2 × LinkMsg)} {records records' : List SdRecord}
  {s s' s'' : TaskMavlink}

/-- A part that sends nothing. -/
theorem nothing (hoffered : s'.offered = s.offered) (houtbound : s'.outbound = s.outbound)
    (hrecorded : s'.recorded = s.recorded) (hsdWriteQueue : s'.sdWriteQueue = s.sdWriteQueue) : Sends found [] [] s s' := by
  refine ⟨by rw [hoffered, List.append_nil], fun port => ?_, by rw [hrecorded, List.append_nil], ?_⟩
  · rw [houtbound]
    exact .nothing _
  · rw [hsdWriteQueue]
    exact .nothing _

theorem trans (h : Sends found items records s s') (h' : Sends found items' records' s' s'') :
    Sends found (items ++ items') (records ++ records') s s'' := by
  refine ⟨?_, fun port => ?_, ?_, h.sdWriteQueue.trans h'.sdWriteQueue⟩
  · rw [h'.offered, h.offered, List.append_assoc]
  · rw [sentTo_append]
    exact (h.outbound port).trans (h'.outbound port)
  · rw [h'.recorded, h.recorded, List.append_assoc]

theorem mono (hfound : found ⊆ found') (h : Sends found items records s s') : Sends found' items records s s' where
  offered := h.offered
  outbound port := (h.outbound port).mono fun _ _ ⟨r, hr, hused⟩ => ⟨r, hfound hr, hused⟩
  recorded := h.recorded
  sdWriteQueue := h.sdWriteQueue.mono fun _ _ ⟨r, hr, hused⟩ => ⟨r, hfound hr, hused⟩

/-- What goes on beside the queues. -/
theorem congr (h : Sends found items records s s') (hoffered : s''.offered = s'.offered)
    (houtbound : s''.outbound = s'.outbound) (hrecorded : s''.recorded = s'.recorded)
    (hsdWriteQueue : s''.sdWriteQueue = s'.sdWriteQueue) : Sends found items records s s'' := by
  have hnothing : Sends found [] [] s' s'' := nothing hoffered houtbound hrecorded hsdWriteQueue
  have h' := h.trans hnothing
  rwa [List.append_nil, List.append_nil] at h'

theorem enqueueWrite (s : TaskMavlink) (port : Fin 2) (m : LinkMsg) {r : Readings} (hr : r ∈ found) :
    Sends found [(port, m)] [] s (s.enqueueWrite port m r) := by
  refine ⟨rfl, fun other => ?_, (List.append_nil _).symm, .nothing _⟩
  rw [sentTo_singleton]
  unfold TaskMavlink.enqueueWrite
  by_cases hport : port = other
  · subst hport
    rw [if_pos rfl]
    dsimp only
    rw [Function.update_self]
    exact .one ⟨r, hr, rfl⟩ m
  · rw [if_neg hport]
    dsimp only
    rw [Function.update_of_ne (Ne.symm hport)]
    exact .nothing _

theorem record (s : TaskMavlink) (x : Option SdRecord) {r : Readings} (hr : r ∈ found) :
    Sends found [] x.toList s (s.record x r) := by
  cases x with
  | none => exact nothing rfl rfl rfl rfl
  | some x => exact ⟨(List.append_nil _).symm, fun _ => .nothing _, rfl, .one ⟨r, hr, rfl⟩ x⟩

/-- A request is sent where the look at the free slots lets it through, and then it is taken. -/
theorem forwardLogRequest (s : TaskMavlink) (kind : LogRequestKind) (port : Fin 2) (start «end» : UInt16) (ofs count : UInt32)
    {r : Readings} (hr : r ∈ found) : Sends found []
      (if Log.uxQueueSpacesAvailable (r.sdWriteQueue s.sdWriteQueue) < 2 then [] else
        [kind.record { ofs, count, start, «end», port := UInt8.ofNat port }])
      s (s.forwardLogRequest kind port start «end» ofs count r) := by
  unfold TaskMavlink.forwardLogRequest Log.forwardLogRequest
  dsimp only
  split
  · exact ⟨(List.append_nil _).symm, fun _ => .nothing _, (List.append_nil _).symm, (Sent.nothing _).used ⟨r, hr, rfl⟩⟩
  · exact ⟨(List.append_nil _).symm, fun _ => .nothing _, rfl, .one ⟨r, hr, rfl⟩ _⟩

end Sends

end TaskMavlink

end BoredomOS.Link
