/-
The flight log over the whole life of a device: begun at each boot on the card as it is, written and
served while the board runs, cut short between operations or inside one, its index lost or not in
between. Every answer with bytes that was ever sent, on either port and in any of the lives, is a
slice of its generation's contents, and what is left of the file on the card begins with these. So
the answers to any number of requests go together, in whatever order they came.
-/
import BoredomOS.Lib.Reassembly
import BoredomOS.Storage.History
import BoredomOS.Log.Delivery
import BoredomOS.Log.Listing
import BoredomOS.Log.Logged

namespace BoredomOS.Log

open Runs
open Steps (Prog)
open Storage (Card History Rig)
open Reassembly (Slice gather front)

/-! ## Lives -/

/-- A device that is off, with its card, or runs `TaskSdWrite`; beside it what the task posted in the
lives before this one. -/
inductive Device
  | off (card : Card LogPiece) (before : List Post)
  | on (task : TaskSdWrite) (before : List Post)

inductive DeviceEv
  /-- the task starts, and `begin()` returns -/
  | begin (o : Opening)
  | task (e : TaskEv)
  /-- power is lost before the step of `begin()` of that number -/
  | cutBegin (o : Opening) (point : Nat)
  /-- power is lost while a record is written, before the step of that number -/
  | cutWrite (incoming : SdRecord) (o : Opening) (point : Nat)
  | cut
  /-- while the board is off, `index.bin` may come to hold anything -/
  | damage (index : Option (List UInt8))

namespace Device

def card : Device → Card LogPiece
  | .off c _ => c
  | .on t _ => t.card

/-- Everything that was ever posted. -/
def posted : Device → List Post
  | .off _ before => before
  | .on t before => before ++ t.posted

def step (files size : Nat) : Device → DeviceEv → Option Device
  | .off c before, .begin o => some (.on (.boot files size c o) before)
  | .off c before, .cutBegin o point =>
    ((Storage.begin (writeLogPreamble o)).points ⟨c, { files, size }⟩)[point]?.map fun p => .off p.card.cut before
  | .off c before, .damage index => some (.off { c with index } before)
  | .on t before, .task e => (t.step e).map fun t' => .on t' before
  | .on t before, .cutWrite incoming o point =>
    ((Storage.write (Log.writeRecord incoming) (writeLogPreamble o)).points t.sdData)[point]?.map fun p =>
      .off p.card.cut (before ++ t.posted)
  | .on t before, .cut => some (.off t.card.cut (before ++ t.posted))
  | _, _ => none

end Device

/-! ## What the answers say -/

/-- What an answer says of the file. -/
def LogData.slice (d : LogData) : Slice UInt8 := ⟨d.ofs.toNat, d.data.toList.take d.count.toNat⟩

/-- The slice of an answer with bytes. -/
def Post.slice (p : Post) : Option (Slice UInt8) := p.data.bind fun d => if 0 < d.count then some d.slice else none

/-- What it named is known. -/
def Post.Backed (contents : Nat → List UInt8) (p : Post) : Prop := ∀ f, p.named = some f → f.image <+: contents f.born

/-- An answer with bytes is from the slot its id names and the generation that slot held at the request, and is
a slice of what is known of that. -/
def Post.Told (contents : Nat → List UInt8) (p : Post) : Prop :=
  ∀ s, p.slice = some s → ∃ f slot, p.named = some f ∧ p.source = some (slot, f.born) ∧
    (∀ d, p.data = some d → d.id.toNat = slot + 1) ∧ s.Of (contents f.born)

theorem told_of_faithful {contents : Nat → List UInt8} {p : Post} (hfaithful : Faithful p) (hbacked : p.Backed contents) :
    p.Told contents := by
  intro s hs
  obtain ⟨d, hd, hs⟩ := Option.bind_eq_some_iff.1 hs
  split at hs
  swap
  · cases hs
  rename_i hcount
  cases hs
  have hmsg : p.msg = .logData d := by
    unfold Post.data at hd
    split at hd
    · rename_i hmsg
      cases hd
      exact hmsg
    · cases hd
  obtain ⟨f, slot, hnamed, hsource, hid, -, hdata⟩ := hfaithful d hmsg hcount
  refine ⟨f, slot, hnamed, hsource, ?_, ?_⟩
  · rintro d' hd'
    obtain rfl := Option.some.inj (hd.symm.trans hd')
    exact hid
  · change d.data.toList.take d.count.toNat <+: (contents f.born).drop d.ofs.toNat
    rw [hdata]
    exact (List.take_prefix _ _).trans ((hbacked f hnamed).drop _)

/-! ## What the task named -/

/-- All that the requests named so far is known. -/
structure Known (contents : Nat → List UInt8) (t : TaskSdWrite) : Prop where
  named : ∀ p f, t.named p = some f → f.image <+: contents f.born
  posted : ∀ x ∈ t.posted, x.Backed contents

namespace Known

variable {contents contents' : Nat → List UInt8} {t t' : TaskSdWrite} {p : Fin 2}

theorem mono (h : Known contents t) (hmore : ∀ born, contents born <+: contents' born) : Known contents' t :=
  ⟨fun p f hf => (h.named p f hf).trans (hmore _), fun x hx f hf => (h.posted x hx f hf).trans (hmore _)⟩

theorem of_same (h : Known contents t) (hnamed : t'.named = t.named) (hposted : t'.posted = t.posted) : Known contents t' :=
  ⟨hnamed ▸ h.named, hposted ▸ h.posted⟩

theorem send (h : Known contents t) (p : Fin 2) (msg : LinkMsg) (source : Option (Nat × Nat)) :
    Known contents (t.send p msg source) := by
  refine ⟨h.named, fun x hx => ?_⟩
  rcases List.mem_append.1 hx with hx | hx
  · exact h.posted x hx
  · rw [List.mem_singleton.1 hx]
    exact h.named p

theorem endStream (h : Known contents t) (p : Fin 2) : Known contents (t.endStream p) := by
  unfold TaskSdWrite.endStream
  dsimp only
  split <;> exact h.of_same rfl rfl

theorem readChunk (h : Known contents t) (p : Fin 2) (noise : List UInt8) : Known contents (t.readChunk p noise) := by
  unfold TaskSdWrite.readChunk
  dsimp only
  split
  · exact h.endStream p
  · split
    · exact h.endStream p
    · exact (h.send p _ _).of_same rfl rfl

theorem serviceStream (h : Known contents t) (p : Fin 2) (noise : List UInt8) : Known contents (t.serviceStream p noise) := by
  have hnoData : Known contents (t.postNoData p) := h.send p _ _
  unfold TaskSdWrite.serviceStream
  dsimp only
  split
  · exact hnoData.of_same rfl rfl
  split
  · split
    · exact hnoData.endStream p
    · exact h.endStream p
  split
  · exact h.readChunk p noise
  split
  · exact h
  split
  · refine endStream ?_ p
    exact h.of_same rfl rfl
  · refine readChunk ?_ p noise
    exact h.of_same rfl rfl

theorem serviceListing (h : Known contents t) (hserved : t.serviceListing p = some t') : Known contents t' := by
  obtain ⟨⟨listing, found⟩, -, rfl⟩ := Option.map_eq_some_iff.1 hserved
  cases found with
  | none => exact h.of_same rfl rfl
  | some found =>
    have hset : Known contents (t.setListing p listing) := h.of_same rfl rfl
    exact hset.send p _ _

theorem endReplaced (h : Known contents t) (after : Nat) (p : Fin 2) : Known contents (t.endReplaced after p) := by
  unfold TaskSdWrite.endReplaced
  dsimp only
  split
  · exact (h.send p _ _).endStream p
  · exact h

theorem writeRecord (h : Known contents t) (incoming : SdRecord) (o : Opening) :
    Known contents (t.writeRecord incoming o) := by
  unfold TaskSdWrite.writeRecord
  split
  · exact h
  · dsimp only
    split
    · refine endReplaced (endReplaced ?_ _ 0) _ 1
      exact h.of_same rfl rfl
    · exact h.of_same rfl rfl

theorem serve (h : Known contents t) {room : Fin 2 → Bool} {noise : List UInt8} (hstep : t.serve room noise = some t') :
    Known contents t' := by
  obtain ⟨-, rfl⟩ | ⟨port, served, -, -, rfl, hpiece⟩ := serve_cases hstep
  · exact h
  have hserved : Known contents served := by
    obtain ⟨-, hserved⟩ | ⟨-, -, rfl⟩ := hpiece
    · exact h.serviceListing hserved
    · exact h.serviceStream port noise
  exact hserved.of_same rfl rfl

/-- A request names the file in its slot, of which no more is then known than is there. -/
theorem startStream (h : Known contents t) (hcard : History contents t.card) (p : Fin 2) (request : SdLogRequestPayload) :
    ∃ contents', (∀ born, contents born <+: contents' born) ∧ History contents' t.card ∧
      Known contents' (t.startStream p request) := by
  have hended := h.endStream p
  have hsame : (t.endStream p).card = t.card := congrArg Storage.Sys.card (Beside.endStream t p).sdData
  have hnamed : ∀ {contents' : Nat → List UInt8} {named : Option Named}, Known contents' (t.endStream p) →
      (∀ f, named = some f → f.image <+: contents' f.born) → ∀ q f,
        Function.update (t.endStream p).named p named q = some f → f.image <+: contents' f.born := by
    intro contents' named hknown hnew q f hf
    rw [Function.update_apply] at hf
    split at hf
    · exact hnew f hf
    · exact hknown.named q f hf
  unfold TaskSdWrite.startStream
  dsimp only
  rw [hsame]
  cases hat : fileAt t.card ((request.start.toNat : Int) - 1) with
  | none =>
    refine ⟨contents, fun _ => List.prefix_refl _, hcard, hnamed hended ?_, hended.posted⟩
    rintro f ⟨⟩
  | some g =>
    unfold fileAt at hat
    split at hat
    · cases hat
    obtain ⟨hmore, hlearnt⟩ := hcard.learnt hat (List.prefix_refl _)
    refine ⟨_, hmore, hcard.learn hat (List.prefix_refl _), hnamed (hended.mono hmore) ?_, (hended.mono hmore).posted⟩
    rintro f ⟨⟩
    exact hlearnt

end Known

/-! ## Every life -/

/-- What holds of a device whose generations are known to have these contents. -/
structure DeviceOk (n : Nat) (contents : Nat → List UInt8) (d : Device) : Prop where
  history : History contents d.card
  good : logFormat.AllGood d.card
  posted : ∀ p ∈ d.posted, Faithful p ∧ p.Backed contents
  task : ∀ t before, d = .on t before → logFormat.Fit t.sdData ∧ TaskOk n none t ∧ Known contents t

namespace DeviceOk

variable {n size : Nat} {contents : Nat → List UInt8}

theorem of_off {c : Card LogPiece} {before : List Post} (hhistory : History contents c) (hgood : logFormat.AllGood c)
    (hbefore : ∀ p ∈ before, Faithful p ∧ p.Backed contents) : DeviceOk n contents (.off c before) :=
  ⟨hhistory, hgood, hbefore, fun _ _ h => by cases h⟩

theorem of_on {t : TaskSdWrite} {before : List Post} (hhistory : History contents t.card) (hfit : logFormat.Fit t.sdData)
    (hok : TaskOk n none t) (hknown : Known contents t) (hbefore : ∀ p ∈ before, Faithful p ∧ p.Backed contents) :
    DeviceOk n contents (.on t before) := by
  refine ⟨hhistory, hfit.all, fun p hp => ?_, ?_⟩
  · rcases List.mem_append.1 hp with hp | hp
    · exact hbefore p hp
    · exact ⟨hok.posted p hp, hknown.posted p hp⟩
  · rintro _ _ ⟨⟩
    exact ⟨hfit, hok, hknown⟩

theorem before {t : TaskSdWrite} {xs : List Post} (h : DeviceOk n contents (.on t xs)) :
    ∀ p ∈ xs, Faithful p ∧ p.Backed contents := fun p hp => h.posted p (List.mem_append_left _ hp)

/-- What `begin()` leaves at each of its steps, and where it ends. -/
theorem begin {c : Card LogPiece} (hhistory : History contents c) (hgood : logFormat.AllGood c) (o : Opening) :
    (∀ p ∈ (Storage.begin (writeLogPreamble o)).points ⟨c, { files := n, size }⟩,
      History contents p.card ∧ logFormat.AllGood p.card) ∧
      History contents (TaskSdWrite.boot n size c o).card ∧ logFormat.Fit (TaskSdWrite.boot n size c o).sdData := by
  have hkeeps := Prog.cuts_of_keeps (Storage.keeps_op (Storage.stable_history contents) (.begin (writeLogPreamble o)))
    (s := ⟨c, { files := n, size }⟩) hhistory
  obtain ⟨hpoints, hend⟩ := (Prog.wp_iff _ _).1 (Storage.fit_begin (s := ⟨c, { files := n, size }⟩) hgood
    fun _ => opens_writeLogPreamble o)
  exact ⟨fun p hp => ⟨hkeeps p (Prog.mem_cuts_of_points hp), hpoints p hp⟩, hkeeps _ (Prog.run_mem_cuts _ _), hend⟩

/-- A record's write, at each of its steps and where it ends. -/
theorem write {s : Storage.Sys LogPiece} (hhistory : History contents s.card) (hfit : logFormat.Fit s)
    (incoming : SdRecord) (o : Opening) :
    (∀ p ∈ (Storage.write (Log.writeRecord incoming) (writeLogPreamble o)).points s,
      History contents p.card ∧ logFormat.AllGood p.card) ∧
      History contents ((Storage.write (Log.writeRecord incoming) (writeLogPreamble o)).run s).2.card ∧
      logFormat.Fit ((Storage.write (Log.writeRecord incoming) (writeLogPreamble o)).run s).2 := by
  have hkeeps := Prog.cuts_of_keeps (Storage.keeps_op (Storage.stable_history contents)
    (.write (Log.writeRecord incoming) (writeLogPreamble o))) hhistory
  obtain ⟨hpoints, hend⟩ := (Prog.wp_iff _ _).1 (Storage.fit_write (takes_record incoming) (opens_writeLogPreamble o) hfit)
  exact ⟨fun p hp => ⟨hkeeps p (Prog.mem_cuts_of_points hp), hpoints p hp⟩, hkeeps _ (Prog.run_mem_cuts _ _), hend⟩

/-- The task's step: only a record touches the card, and only a request names a file. -/
theorem task_step (h2 : 2 ≤ n) (hmax : n ≤ 256) {t t' : TaskSdWrite} {before : List Post} {e : TaskEv}
    (h : DeviceOk n contents (.on t before)) (hstep : t.step e = some t') :
    ∃ contents', DeviceOk n contents' (.on t' before) := by
  obtain ⟨hfit, hok, hknown⟩ := h.task t before rfl
  have hok' := hok.step h2 hmax hstep
  have hsame : t'.sdData = t.sdData → Known contents t' → ∃ contents', DeviceOk n contents' (.on t' before) := by
    intro hsd hknown'
    have hcard : t'.card = t.card := congrArg Storage.Sys.card hsd
    exact ⟨contents, of_on (hcard ▸ h.history) (hsd ▸ hfit) hok' hknown' h.before⟩
  cases e with
  | received incoming o =>
    have hwritten : t' = t.writeRecord incoming o → ∃ contents', DeviceOk n contents' (.on t' before) := by
      rintro rfl
      have hbeside := Beside.writeRecord t incoming o
      obtain ⟨-, hhistory, hfit'⟩ := write h.history hfit incoming o
      refine ⟨contents, of_on ?_ (hbeside.sdData ▸ hfit') hok' (hknown.writeRecord incoming o) h.before⟩
      rw [TaskSdWrite.card, hbeside.sdData]
      exact hhistory
    cases incoming with
    | logList request =>
      obtain ⟨q, -, rfl⟩ := Option.map_eq_some_iff.1 hstep
      exact hsame rfl (hknown.of_same rfl rfl)
    | logRead request =>
      obtain ⟨q, -, rfl⟩ := Option.map_eq_some_iff.1 hstep
      have hsd := (Beside.startStream t q request).sdData
      have hcard : (t.startStream q request).card = t.card := congrArg Storage.Sys.card hsd
      obtain ⟨contents', hmore, hhistory, hknown'⟩ := hknown.startStream h.history q request
      refine ⟨contents', of_on (hcard ▸ hhistory) (hsd ▸ hfit) hok' hknown' fun p hp => ?_⟩
      obtain ⟨hfaithful, hbacked⟩ := h.before p hp
      exact ⟨hfaithful, fun f hf => (hbacked f hf).trans (hmore _)⟩
    | logEnd request =>
      obtain ⟨q, -, rfl⟩ := Option.map_eq_some_iff.1 hstep
      exact hsame (Beside.endStream t q).sdData (hknown.endStream q)
    | sys r | pwr r | time r => exact hwritten (Option.some.inj hstep).symm
  | served room noise =>
    refine hsame ?_ (hknown.serve hstep)
    obtain ⟨-, rfl⟩ | ⟨q, served, -, -, rfl, ⟨-, hserved⟩ | ⟨-, -, rfl⟩⟩ := serve_cases hstep
    · rfl
    · obtain ⟨⟨listing, found⟩, -, rfl⟩ := Option.map_eq_some_iff.1 hserved
      cases found <;> rfl
    · exact (Beside.serviceStream t q noise).sdData

theorem step (h2 : 2 ≤ n) (hmax : n ≤ 256) {d d' : Device} {e : DeviceEv} (h : DeviceOk n contents d)
    (hstep : d.step n size e = some d') : ∃ contents', DeviceOk n contents' d' := by
  cases d with
  | off c before =>
    cases e with
    | begin o =>
      cases hstep
      obtain ⟨-, hhistory, hfit⟩ := begin h.history h.good o
      refine ⟨contents, of_on hhistory hfit (taskOk_boot (by omega) size c o) ⟨?_, ?_⟩ h.posted⟩
      · rintro _ _ ⟨⟩
      · rintro _ ⟨⟩
    | cutBegin o point =>
      obtain ⟨p, hp, rfl⟩ := Option.map_eq_some_iff.1 hstep
      obtain ⟨hhistory, hgood⟩ := (begin h.history h.good o).1 p (List.mem_of_getElem? hp)
      exact ⟨contents, of_off hhistory.cut (Storage.allGood_cut hgood) h.posted⟩
    | damage index =>
      cases hstep
      exact ⟨contents, of_off ((Storage.stable_history contents).index _ _ h.history) h.good h.posted⟩
    | task | cutWrite | cut => cases hstep
  | on t before =>
    cases e with
    | task e =>
      obtain ⟨t', ht', rfl⟩ := Option.map_eq_some_iff.1 hstep
      exact h.task_step h2 hmax ht'
    | cutWrite incoming o point =>
      obtain ⟨p, hp, rfl⟩ := Option.map_eq_some_iff.1 hstep
      obtain ⟨hhistory, hgood⟩ := (write h.history (h.task t before rfl).1 incoming o).1 p (List.mem_of_getElem? hp)
      exact ⟨contents, of_off hhistory.cut (Storage.allGood_cut hgood) h.posted⟩
    | cut =>
      cases hstep
      exact ⟨contents, of_off h.history.cut (Storage.allGood_cut h.good) h.posted⟩
    | begin | cutBegin | damage => cases hstep

theorem empty : DeviceOk n (fun _ => []) (.off {} []) := by
  refine of_off History.empty (fun i f hf => by cases hf) ?_
  rintro _ ⟨⟩

end DeviceOk

theorem deviceOk_run {files size : Nat} (h2 : 2 ≤ files) (hmax : files ≤ 256) {es : List DeviceEv} {d : Device}
    (hrun : run (Device.step files size) (.off {} []) es = some d) : ∃ contents, DeviceOk files contents d :=
  Runs.inv (P := fun d => ∃ contents, DeviceOk files contents d) (fun _ _ _ ⟨_, h⟩ hstep => h.step h2 hmax hstep)
    ⟨_, DeviceOk.empty⟩ hrun

/-! ## What was logged -/

namespace Device

/-- What an event adds to the log, or part of it when power is lost. -/
def logs : Device → DeviceEv → Journal.Ev DataFlash.Record
  | .off _ _, .begin o => .add o.records
  | .off _ _, .cutBegin o _ => .crash o.records
  | .on t _, .task (.received incoming o) => .add (written t.sdData incoming o)
  | .on t _, .cutWrite incoming o _ => .crash (written t.sdData incoming o)
  | .on _ _, .cut => .crash []
  | _, _ => .add []

/-- The files, oldest first, are a journal of what the events logged. -/
def Logs (files size : Nat) (es : List DeviceEv) (d : Device) : Prop :=
  ∃ h j, Journal.Run {} (collect (Device.step files size) (fun d e => [d.logs e]) (.off {} []) es) j ∧ Logged files h d.card j

/-- The card, and the object while the task runs. -/
def rig : Device → Rig LogPiece
  | .off c _ => { card := c }
  | .on t _ => { card := t.card, data := some t.sdData.data }

theorem rig_card (d : Device) : d.rig.card = d.card := by cases d <;> rfl

end Device

/-- The index is let be. -/
def DeviceEv.isDamage : DeviceEv → Bool
  | .damage _ => true
  | _ => false

section

variable {files size h : Nat} {d d' : Device} {j : Journal LogPiece}

/-- An operation of the object, on the task's card and open file. -/
theorem records_handed {t : TaskSdWrite} {before : List Post} (hat : (Device.on t before).rig.At files size h)
    (incoming : SdRecord) (o : Opening) :
    (t.sdData.hands (.write (Log.writeRecord incoming) (writeLogPreamble o))).flatMap LogPiece.records =
      written t.sdData incoming o :=
  have hlive : Storage.Live True files size t.sdData h := hat
  records_hands hlive.dataFile hlive.slot incoming o

theorem keeps_device (hmax : files < 2 ^ 31) (hk : Keeps files size h d.rig j) {e : DeviceEv} (hdam : e.isDamage = false)
    (hstep : d.step files size e = some d') :
    ∃ h' j', Journal.Step (j.flatMap LogPiece.records) (d.logs e) (j'.flatMap LogPiece.records) ∧
      Keeps files size h' d'.rig j' := by
  have hbegin : ∀ o : Opening, logFormat.OpFits (.begin (writeLogPreamble o)) := opens_writeLogPreamble
  have hwrite : ∀ (incoming : SdRecord) (o : Opening),
      logFormat.OpFits (.write (Log.writeRecord incoming) (writeLogPreamble o)) := fun incoming o =>
    ⟨takes_record incoming, opens_writeLogPreamble o⟩
  cases d with
  | off c before =>
    cases e with
    | begin o =>
      cases hstep
      refine keeps_step hmax hk (show logFormat.EvFits (.op (.begin (writeLogPreamble o))) from hbegin o) rfl rfl fun x hx => ?_
      obtain rfl := List.mem_singleton.1 hx
      exact congrArg Journal.Ev.add (records_writeLogPreamble o)
    | cutBegin o point =>
      obtain ⟨p, hp, rfl⟩ := Option.map_eq_some_iff.1 hstep
      refine keeps_step hmax hk (show logFormat.EvFits (.cutIn (.begin (writeLogPreamble o)) point) from hbegin o) rfl
        (show Rig.step files size { card := c } (.cutIn (.begin (writeLogPreamble o)) point) = _ from
          congrArg (Option.map _) hp) fun x hx => ?_
      obtain rfl := List.mem_singleton.1 hx
      exact congrArg Journal.Ev.crash (records_writeLogPreamble o)
    | damage index => cases hdam
    | task | cutWrite | cut => cases hstep
  | on t before =>
    cases e with
    | task e =>
      obtain ⟨t', ht', rfl⟩ := Option.map_eq_some_iff.1 hstep
      cases e with
      | received incoming o =>
        have hsd := sdData_receive ht'
        refine keeps_step hmax hk (show logFormat.EvFits (.op (.write (Log.writeRecord incoming) (writeLogPreamble o))) from
          hwrite incoming o) rfl ?_ fun x hx => ?_
        · change _ = some ({ card := t'.sdData.card, data := some t'.sdData.data } : Rig LogPiece)
          rw [hsd]
          rfl
        · obtain rfl := List.mem_singleton.1 hx
          exact congrArg Journal.Ev.add (records_handed hk.at_ incoming o)
      | served room noise =>
        refine ⟨h, j, .add (List.append_nil _).symm (List.prefix_refl _), ?_⟩
        rw [Device.rig, TaskSdWrite.card, sdData_serve ht']
        exact hk
    | cutWrite incoming o point =>
      obtain ⟨p, hp, rfl⟩ := Option.map_eq_some_iff.1 hstep
      refine keeps_step hmax hk (show logFormat.EvFits (.cutIn (.write (Log.writeRecord incoming) (writeLogPreamble o)) point)
        from hwrite incoming o) rfl (show Rig.step files size (Device.on t before).rig (.cutIn _ point) = _ from
          congrArg (Option.map _) hp) fun x hx => ?_
      obtain rfl := List.mem_singleton.1 hx
      exact congrArg Journal.Ev.crash (records_handed hk.at_ incoming o)
    | cut =>
      cases hstep
      refine keeps_step hmax hk (show logFormat.EvFits .cut from trivial) rfl rfl fun x hx => ?_
      obtain rfl := List.mem_singleton.1 hx
      rfl
    | begin | cutBegin | damage => cases hstep

/-- A device whose index was let be holds what its events logged. -/
theorem keeps_run (hfiles : 0 < files) (hmax : files < 2 ^ 31) {es : List DeviceEv} (hes : ∀ e ∈ es, e.isDamage = false)
    (hrun : run (Device.step files size) (.off {} []) es = some d) : ∃ h j,
      Journal.Run {} (collect (Device.step files size) (fun d e => [d.logs e]) (.off {} []) es)
        (Journal.flatMap LogPiece.records j) ∧ Keeps files size h d.rig j := by
  induction es using List.reverseRecOn generalizing d with
  | nil =>
    cases hrun
    obtain ⟨h₀, hempty⟩ : ∃ h₀, Storage.Journaled files size ({ card := {} } : Rig LogPiece) h₀ {} :=
      Storage.journaled_empty hfiles
    exact ⟨h₀, {}, .nil, hempty, Storage.rigFit_empty⟩
  | append_singleton es e ih =>
    obtain ⟨m, hm, hstep⟩ := run_concat.1 hrun
    obtain ⟨h, j, hj, hk⟩ := ih (fun e' he' => hes e' (List.mem_append_left _ he')) hm
    obtain ⟨h', j', hs, hk'⟩ := keeps_device hmax hk (hes e (List.mem_append_right _ (List.mem_singleton_self e))) hstep
    refine ⟨h', j', ?_, hk'⟩
    rw [collect_concat hm hstep]
    exact hj.step hs

theorem logs_run (hfiles : 0 < files) (hmax : files < 2 ^ 31) {es : List DeviceEv} (hes : ∀ e ∈ es, e.isDamage = false)
    (hrun : run (Device.step files size) (.off {} []) es = some d) : d.Logs files size es := by
  obtain ⟨h, j, hj, hk⟩ := keeps_run hfiles hmax hes hrun
  exact ⟨h, _, hj, d.rig_card ▸ hk.logged⟩

end

/-! ## Answers taken together -/

/-- Over the whole life of a device, restarts and power cuts included: there is one history of the
generations that every answer with bytes, of either port and any request, tells a slice of, and that
each file on the card begins with. -/
theorem answers_agree (files size : Nat) (h2 : 2 ≤ files) (hmax : files ≤ 256) (es : List DeviceEv) (d : Device)
    (hrun : run (Device.step files size) (.off {} []) es = some d) :
    ∃ contents : Nat → List UInt8, (∀ p ∈ d.posted, p.Told contents) ∧
      ∀ i f, d.card.slots i = some f → contents f.born <+: f.image := by
  obtain ⟨contents, h⟩ := deviceOk_run h2 hmax hrun
  refine ⟨contents, fun p hp => ?_, h.history.front⟩
  obtain ⟨hfaithful, hbacked⟩ := h.posted p hp
  exact told_of_faithful hfaithful hbacked

/-- The slices that were read from a generation. -/
def slicesOf (born : Nat) (ps : List Post) : List (Slice UInt8) :=
  ps.filterMap fun p => if p.source.map Prod.snd = some born then p.slice else none

theorem of_slicesOf {contents : Nat → List UInt8} {born : Nat} {ps : List Post} (h : ∀ p ∈ ps, p.Told contents) :
    ∀ s ∈ slicesOf born ps, s.Of (contents born) := by
  intro s hs
  obtain ⟨p, hp, hs⟩ := List.mem_filterMap.1 hs
  split at hs
  · rename_i hsource
    obtain ⟨f, slot, -, hsource', -, hof⟩ := h p hp s hs
    rw [hsource'] at hsource
    obtain rfl : f.born = born := Option.some.inj hsource
    exact hof
  · cases hs

/-- Any answers that were read from a file still on the card, from whatever requests, ports and lives,
in any order, some of them repeated and some lost: put together, they read as the front of its synced
bytes, and when they cover all of them, as every record logged to it up to the last sync. With the index let be,
what the files read as, from the oldest on, is a journal of what was logged. -/
theorem gathered_log_decodes (files size : Nat) (h2 : 2 ≤ files) (hmax : files ≤ 256) (es : List DeviceEv) (d : Device)
    (hrun : run (Device.step files size) (.off {} []) es = some d) (ps : List Post) (hps : ∀ p ∈ ps, p ∈ d.posted)
    (i : Nat) (f : Storage.File LogPiece) (hf : d.card.slots i = some f) :
    (∀ n image, front (gather (slicesOf f.born ps)) n = some image → image = f.image.take n ∧ n ≤ f.image.length) ∧
      ((∀ k < f.image.length, ∃ s ∈ slicesOf f.born ps, s.Covers k) →
        ∃ image, front (gather (slicesOf f.born ps)) f.image.length = some image ∧
          DataFlash.readImage image = some (f.cut.payloads.flatMap LogPiece.records) ∧
          readSlot d.card i = f.cut.payloads.flatMap LogPiece.records) ∧
      ((∀ e ∈ es, e.isDamage = false) → d.Logs files size es) := by
  obtain ⟨contents, h⟩ := deviceOk_run h2 hmax hrun
  have hread := (cardDecodes_of_allGood h.good i f hf).read
  have hof : ∀ s ∈ slicesOf f.born ps, s.Of f.image := by
    intro s hs
    refine (of_slicesOf (fun p hp => ?_) s hs).mono (h.history.front i f hf)
    obtain ⟨hfaithful, hbacked⟩ := h.posted p (hps p hp)
    exact told_of_faithful hfaithful hbacked
  refine ⟨?_, ?_, fun hes => logs_run (by omega) (by omega) hes hrun⟩
  · intro n image himage
    obtain ⟨hcover, rfl⟩ := (Reassembly.front_gather hof).1 himage
    refine ⟨rfl, ?_⟩
    cases n with
    | zero => exact Nat.zero_le _
    | succ n =>
      obtain ⟨s, hs, hn⟩ := hcover n (Nat.lt_succ_self n)
      exact (hof s hs).lt_length hn
  · intro hcover
    refine ⟨f.image, (Reassembly.front_gather hof).2 ⟨hcover, (List.take_length ..).symm⟩, hread, ?_⟩
    rw [readSlot, hf, Option.bind_some, hread, Option.getD_some]

/-- A first boot that logs a record, and power lost while the next is written; then, in the second
life, the file in two requests, the later part first and over the other port. -/
def twoRequests : List DeviceEv :=
  let pwr : SdRecord := .pwr { timeUs := 5000, millivolts := 3700, remaining := 80 }
  let read (port : UInt8) (ofs count : UInt32) : DeviceEv :=
    .task (.received (.logRead { ofs, count, start := 1, «end» := 1, port }) opening)
  [.begin opening, .task (.received pwr opening), .cutWrite pwr opening 2, .begin opening,
    read 1 300 0xFFFFFFFF, read 0 0 330] ++ List.replicate 24 (.task (.served (fun _ => true) []))

def coversFile (d : Device) : Bool :=
  match d.card.slots 0 with
  | none => false
  | some f => decide (∀ k < f.image.length, ∃ s ∈ slicesOf f.born d.posted.reverse, s.Covers k)

theorem gathered_log_decodes_twoRequests : ∃ d f image, run (Device.step 4 4096) (.off {} []) twoRequests = some d ∧
    d.card.slots 0 = some f ∧ front (gather (slicesOf f.born d.posted.reverse)) f.image.length = some image ∧
      DataFlash.readImage image = some (f.cut.payloads.flatMap LogPiece.records) ∧
      readSlot d.card 0 = f.cut.payloads.flatMap LogPiece.records ∧ d.Logs 4 4096 twoRequests := by
  have hcovers : (run (Device.step 4 4096) (.off {} []) twoRequests).map coversFile = some true := by decide +kernel
  obtain ⟨d, hrun, hcovers⟩ := Option.map_eq_some_iff.1 hcovers
  unfold coversFile at hcovers
  split at hcovers
  · cases hcovers
  rename_i f hf
  obtain ⟨-, hwhole, hlogs⟩ := gathered_log_decodes 4 4096 (by decide) (by decide) twoRequests d hrun d.posted.reverse
    (fun p hp => List.mem_reverse.1 hp) 0 f hf
  obtain ⟨image, hfront, hread, hslot⟩ := hwhole (of_decide_eq_true hcovers)
  exact ⟨d, f, image, hrun, hf, hfront, hread, hslot, hlogs (by decide)⟩

theorem answers_agree_twoRequests : ∃ d, run (Device.step 4 4096) (.off {} []) twoRequests = some d ∧
    ∃ contents : Nat → List UInt8, (∀ p ∈ d.posted, p.Told contents) ∧
      ∀ i f, d.card.slots i = some f → contents f.born <+: f.image := by
  obtain ⟨d, hrun⟩ := Option.isSome_iff_exists.1
    (show (run (Device.step 4 4096) (.off {} []) twoRequests).isSome = true by decide +kernel)
  exact ⟨d, hrun, answers_agree 4 4096 (by decide) (by decide) twoRequests d hrun⟩

/-! ## One request for the whole file -/

/-- The bytes a port was sent, end to end. -/
def bytesOf (ms : List LogData) : List UInt8 := ms.flatMap fun m => m.data.toList.take m.count.toNat

/-- The answer to a request from 0 on for at least the file's length is the file. -/
theorem bytesOf_delivery (id : UInt16) {image : List UInt8} {count : Nat} (hall : image.length ≤ count) :
    bytesOf (delivery id image 0 count) = image := by
  have hend : rangeEnd image 0 count = image.length := by
    rw [rangeEnd, Nat.zero_add]
    exact Nat.min_eq_left hall
  have hchunks := @chunksOf_covers id image 0 image.length (Nat.le_refl _)
  rw [Nat.sub_zero, List.drop_zero, List.take_length] at hchunks
  rw [bytesOf, delivery_eq, List.flatMap_append, hend, hchunks]
  split
  · simp [chunkAt]
  · simp

/-- In any life of any device, one request for all of a file that the card then holds, left alone while
the task does anything else: once it has ended, what was sent for it is the synced bytes of the file at
the request, and reads as every record logged to it up to the last sync. With the index let be, what the files
read as, from the oldest on, is a journal of what was logged. -/
theorem download_decodes (files size : Nat) (h2 : 2 ≤ files) (hmax : files ≤ 128) (es : List DeviceEv) (t : TaskSdWrite)
    (before : List Post) (hrun : run (Device.step files size) (.off {} []) es = some (.on t before))
    (port : Fin 2) (request : SdLogRequestPayload) (slot : Nat) (f : Storage.File LogPiece) (hslot : slot < files)
    (hid : request.start.toNat = slot + 1) (hf : t.card.slots slot = some f) (hofs : request.ofs = 0)
    (hall : f.image.length ≤ request.count.toNat) (more : List TaskEv) (t' : TaskSdWrite)
    (hmore : run TaskSdWrite.step (t.startStream port request) more = some t')
    (hlets : ∀ es₁ e es₂ s, more = es₁ ++ e :: es₂ → run TaskSdWrite.step (t.startStream port request) es₁ = some s →
      s.LetsBe port request.start e) (hended : (t'.streams port).active = false) :
    bytesOf (dataTo port (t'.posted.drop t.posted.length)) = f.image ∧
      DataFlash.readImage (bytesOf (dataTo port (t'.posted.drop t.posted.length))) =
        some (f.cut.payloads.flatMap LogPiece.records) ∧
      readSlot t.card slot = f.cut.payloads.flatMap LogPiece.records ∧
      ((∀ e ∈ es, e.isDamage = false) → (Device.on t before).Logs files size es) := by
  obtain ⟨contents, h⟩ := deviceOk_run h2 (by omega) hrun
  have hread : DataFlash.readImage f.image = some (f.cut.payloads.flatMap LogPiece.records) :=
    (cardDecodes_of_allGood h.good slot f hf).read
  have hfiles : t.fileCount = files := (h.task t before rfl).2.1.files
  have hreadable : t.readable request.start = f.image := by
    have hcount := request.count.toNat_lt
    simp only [TaskSdWrite.readable, hid]
    rw [if_pos (by rw [hfiles]; exact hslot), hf]
    simp only [Option.map_some, Option.getD_some]
    rw [Nat.mod_eq_of_lt (by omega), List.take_length]
  have hdelivered := (delivering_run (delivering_startStream (by omega) port request) hlets hmore).all hended
  rw [hreadable, hofs, show (0 : UInt32).toNat = 0 from rfl] at hdelivered
  rw [hdelivered, bytesOf_delivery _ hall]
  refine ⟨rfl, hread, ?_, fun hes => logs_run (by omega) (by omega) hes hrun⟩
  rw [readSlot, hf, Option.bind_some, hread, Option.getD_some]

/-- The second life of `twoRequests`, before its requests. -/
def secondLife : List DeviceEv := twoRequests.take 4

def wholeFile : SdLogRequestPayload := { ofs := 0, count := 0xFFFFFFFF, start := 1, «end» := 1, port := 0 }

def calls : List TaskEv := List.replicate 24 (.served (fun _ => true) [])

theorem letsBe_served {port : Fin 2} {id : UInt16} (t : TaskSdWrite) (room : Fin 2 → Bool) (noise : List UInt8) :
    t.LetsBe port id (.served room noise) := by
  refine ⟨fun _ _ h => ?_, fun _ _ h => h⟩
  rcases h with h | h <;> cases h

def endsWhole : Device → Bool
  | .off _ _ => false
  | .on t _ =>
    match t.card.slots 0, run TaskSdWrite.step (t.startStream Link.linkChanUart wholeFile) calls with
    | some f, some t' => decide (f.image.length ≤ wholeFile.count.toNat) && !(t'.streams Link.linkChanUart).active
    | _, _ => false

theorem download_decodes_secondLife : ∃ t before f t', run (Device.step 4 4096) (.off {} []) secondLife = some (.on t before) ∧
    t.card.slots 0 = some f ∧ run TaskSdWrite.step (t.startStream 0 wholeFile) calls = some t' ∧
      bytesOf (dataTo 0 (t'.posted.drop t.posted.length)) = f.image ∧
        DataFlash.readImage (bytesOf (dataTo 0 (t'.posted.drop t.posted.length))) =
          some (f.cut.payloads.flatMap LogPiece.records) ∧
        readSlot t.card 0 = f.cut.payloads.flatMap LogPiece.records ∧ (Device.on t before).Logs 4 4096 secondLife := by
  have hends : (run (Device.step 4 4096) (.off {} []) secondLife).map endsWhole = some true := by decide +kernel
  obtain ⟨d, hrun, hends⟩ := Option.map_eq_some_iff.1 hends
  unfold endsWhole at hends
  split at hends
  · cases hends
  rename_i t before
  split at hends
  swap
  · cases hends
  rename_i f t' hf hmore
  rw [Bool.and_eq_true, Bool.not_eq_true'] at hends
  have hlets : ∀ es₁ e es₂ s, calls = es₁ ++ e :: es₂ →
      run TaskSdWrite.step (t.startStream Link.linkChanUart wholeFile) es₁ = some s → s.LetsBe 0 wholeFile.start e := by
    intro es₁ e es₂ s hes _
    have he : e ∈ calls := hes ▸ List.mem_append_right _ List.mem_cons_self
    rw [(List.mem_replicate.1 he).2]
    exact letsBe_served s _ _
  obtain ⟨hbytes, hread, hslot, hlogs⟩ := download_decodes 4 4096 (by decide) (by decide) secondLife t before hrun 0 wholeFile 0 f
    (by decide) rfl hf rfl (of_decide_eq_true hends.1) calls t' hmore hlets hends.2
  exact ⟨t, before, f, t', hrun, hf, hmore, hbytes, hread, hslot, hlogs (by decide)⟩

end BoredomOS.Log
