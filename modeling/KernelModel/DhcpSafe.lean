import KernelModel.DhcpOptions

/-!
When the client configures only what it asked for.

The remembered offer is the one the last request asked for, or it is zero: an acknowledgement fits
it too early only before there is an offer, and too late only after another acknowledgement has
bumped the counter.
-/

namespace KernelModel.Dhcp

/-! ### The log -/

/-- The last discover or request. -/
def lastSend : List Event → Option Event
  | [] => none
  | .discover xid preferred :: _ => some (.discover xid preferred)
  | .request xid address server :: _ => some (.request xid address server)
  | _ :: before => lastSend before

/-- The address of the last offer that was answered. -/
def lastOffer : List Event → Option ℕ
  | [] => none
  | .offer address _ :: _ => some address
  | _ :: before => lastOffer before

/-- Every configured address is the non-zero one of the last offer, and the last packet that was
sent is the request for it that the acknowledgement answers. -/
def Justified : List Event → Prop
  | [] => True
  | .configure address xid :: before =>
    (address ≠ 0 ∧ lastOffer before = some address ∧
      ∃ server, lastSend before = some (.request xid address server)) ∧ Justified before
  | _ :: before => Justified before

/-- An acknowledgement was accepted after the last packet that was sent. -/
def Acknowledged : List Event → Prop
  | .configure _ _ :: _ => True
  | _ => False

/-- The step handles an acknowledgement that passes all checks of the client. -/
def Accepts (s : State) : Label → Prop
  | .receive data behind =>
    s.phase .rx = .idle ∧ s.phase .negotiator = .idle ∧
      ∃ p, Packet.ofData data = some p ∧ p.Passes s.xid ∧
        findMessageType (p.options ++ behind) = some messageTypeDhcpack ∧ s.Matches p ∧
        (readOptions { s.info with leaseTime := 0 } (p.options ++ behind)).isSome
  | _ => False

/-- If an acknowledgement passes the checks, there is an offer, and it is the first one since the
last packet that was sent. -/
def Timely (s : State) (l : Label) : Prop :=
  Accepts s l → s.offerAddress ≠ 0 ∧ ¬Acknowledged s.log

variable {s t : State} {l : Label}

lemma nextXid_ne (xid : ℕ) : State.nextXid xid ≠ xid := by
  rw [State.nextXid]
  omega

/-! ### What a step can do -/

lemma receive_cases {data behind : List UInt8} (h : s.receive data behind = some t) :
    t = s ∨ (∃ p, t = s.answerOffer p) ∨ t = s.sendDiscoverRequest ∨
      ∃ p info, Packet.ofData data = some p ∧ p.Passes s.xid ∧
        findMessageType (p.options ++ behind) = some messageTypeDhcpack ∧ s.Matches p ∧
        readOptions { s.info with leaseTime := 0 } (p.options ++ behind) = some info ∧
        t = s.configure p info := by
  rw [State.receive] at h
  cases hdata : Packet.ofData data with
  | none =>
    rw [hdata] at h
    exact .inl (Option.some.inj h).symm
  | some p =>
    rw [hdata] at h
    by_cases hpass : p.Passes s.xid
    · simp only [not_not.mpr hpass, if_false, Option.bind_eq_some_iff] at h
      obtain ⟨op, hop, h⟩ := h
      split_ifs at h with hoffer hack hmatch hnak
      · exact .inr (.inl ⟨p, (Option.some.inj h).symm⟩)
      · rw [Option.map_eq_some_iff] at h
        obtain ⟨info, hinfo, rfl⟩ := h
        exact .inr (.inr (.inr ⟨p, info, rfl, hpass, hack ▸ hop, hmatch, hinfo, rfl⟩))
      · exact .inl (Option.some.inj h).symm
      · exact .inr (.inr (.inl (Option.some.inj h).symm))
      · exact .inl (Option.some.inj h).symm
    · simp only [hpass, not_false_eq_true, if_true, Option.some.injEq] at h
      exact .inl h.symm

/-- An acknowledgement that passes the checks configures the remembered offer. -/
lemma step_of_accepts (hacc : Accepts s l) (h : step s l = some t) :
    ∃ p info, p.Passes s.xid ∧ t = s.configure p info := by
  cases l with
  | receive data behind =>
    obtain ⟨hrx, hneg, p, hdata, hpass, hop, hmatch, hread⟩ := hacc
    obtain ⟨info, hinfo⟩ := Option.isSome_iff_exists.mp hread
    rw [step, if_pos ⟨hrx, hneg⟩, State.receive, hdata] at h
    have hoffer : messageTypeDhcpack ≠ messageTypeDhcpoffer := by decide
    simp only [not_not.mpr hpass, if_false, hop, Option.bind_some, if_neg hoffer, if_true,
      not_not.mpr hmatch, hinfo, Option.map_some, Option.some.injEq] at h
    exact ⟨p, info, hpass, h.symm⟩
  | timeout => cases hacc
  | negotiate => cases hacc
  | discover p => cases hacc

lemma justified_of_not_accepts (hacc : ¬Accepts s l) (h : step s l = some t) :
    Justified t.log ↔ Justified s.log := by
  cases l with
  | receive data behind =>
    rw [step] at h
    split_ifs at h with hidle
    rcases receive_cases h with rfl | ⟨p, rfl⟩ | rfl |
      ⟨p, info, hdata, hpass, hop, hmatch, hinfo, rfl⟩
    · rfl
    · rfl
    · rfl
    · exact absurd ⟨hidle.1, hidle.2, p, hdata, hpass, hop, hmatch, by rw [hinfo]; rfl⟩ hacc
  | timeout =>
    rw [step] at h
    split_ifs at h <;> rw [← Option.some.inj h]
  | negotiate =>
    rw [step] at h
    split_ifs at h
    rw [← Option.some.inj h]
  | discover p =>
    rw [step, State.discoverStep] at h
    split at h <;> simp only [Option.some.injEq, reduceCtorEq] at h <;> rw [← h]
    rfl

/-! ### The remembered offer -/

/-- What the client knows of an offer that it remembers. -/
structure Remembered (s : State) : Prop where
  /-- Nobody is past the start of a discover. -/
  quiet : ∀ p, s.phase p = .idle ∨ s.phase p = .clear
  offered : lastOffer s.log = some s.offerAddress
  asked : ∃ xid server, lastSend s.log = some (.request xid s.offerAddress server) ∧
    (xid = s.xid ∨ Acknowledged s.log)
  bumped : ∀ address xid before, s.log = .configure address xid :: before →
    s.xid = State.nextXid xid

def Inv (s : State) : Prop := s.offerAddress ≠ 0 → Remembered s

lemma inv_init (preferred : ℕ) : Inv (init preferred) := fun h => absurd rfl h

lemma inv_configure {p : Packet} {info : NetInfo} (hinv : Inv s) (hpass : p.Passes s.xid) :
    Inv (s.configure p info) := by
  intro hoffer
  have hrem := hinv hoffer
  obtain ⟨xid, server, hsend, _⟩ := hrem.asked
  refine ⟨hrem.quiet, hrem.offered, ⟨xid, server, hsend, .inr trivial⟩, ?_⟩
  intro address xid before hlog
  rw [State.configure, List.cons.injEq, Event.configure.injEq] at hlog
  rw [← hlog.1.2, hpass.2.1]
  rfl

lemma inv_answerOffer (p : Packet) (hidle : ∀ q, s.phase q = .idle) : Inv (s.answerOffer p) := by
  intro _
  refine ⟨fun q => .inl (hidle q), rfl, ⟨_, _, rfl, .inl rfl⟩, ?_⟩
  intro address xid before hlog
  cases hlog

lemma inv_start {q : Party} {info : NetInfo} (hinv : Inv s) :
    Inv { s with info := info, phase := Function.update s.phase q .clear } := by
  intro hoffer
  have hrem := hinv hoffer
  refine ⟨fun r => ?_, hrem.offered, hrem.asked, hrem.bumped⟩
  by_cases hr : r = q
  · subst hr
    exact .inr (Function.update_self _ _ _)
  · have hphase : Function.update s.phase q .clear r = s.phase r := Function.update_of_ne hr _ _
    simp only [hphase]
    exact hrem.quiet r

lemma inv_discoverStep {q : Party} (hinv : Inv s) (h : s.discoverStep q = some t) : Inv t := by
  rw [State.discoverStep] at h
  cases hphase : s.phase q with
  | idle => simp [hphase] at h
  | clear =>
    simp only [hphase, Option.some.injEq] at h
    intro hoffer
    rw [← h] at hoffer
    exact absurd rfl hoffer
  | load | store _ | build | push _ =>
    simp only [hphase, Option.some.injEq] at h
    intro hoffer
    rw [← h] at hoffer
    rcases (hinv hoffer).quiet q with hidle | hclear
    · rw [hphase] at hidle
      cases hidle
    · rw [hphase] at hclear
      cases hclear

lemma inv_step (hinv : Inv s) (h : step s l = some t) : Inv t := by
  cases l with
  | receive data behind =>
    rw [step] at h
    split_ifs at h with hidle
    have hidle' : ∀ q, s.phase q = .idle := by
      rintro (_ | _)
      · exact hidle.1
      · exact hidle.2
    rcases receive_cases h with rfl | ⟨p, rfl⟩ | rfl | ⟨p, info, _, hpass, _, _, _, rfl⟩
    · exact hinv
    · exact inv_answerOffer p hidle'
    · exact fun hoffer => absurd rfl hoffer
    · exact inv_configure hinv hpass
  | timeout =>
    rw [step] at h
    split_ifs at h <;> exact Option.some.inj h ▸ inv_start hinv
  | negotiate =>
    rw [step] at h
    split_ifs at h
    exact Option.some.inj h ▸ inv_start hinv
  | discover q => exact inv_discoverStep hinv h

/-! ### The acknowledgement -/

lemma justified_configure {p : Packet} {info : NetInfo} (hinv : Inv s) (hlog : Justified s.log)
    (hpass : p.Passes s.xid) :
    Justified (s.configure p info).log ↔ s.offerAddress ≠ 0 ∧ ¬Acknowledged s.log := by
  have hdef : Justified (s.configure p info).log ↔
      (s.offerAddress ≠ 0 ∧ lastOffer s.log = some s.offerAddress ∧
        ∃ server, lastSend s.log = some (.request s.xid s.offerAddress server)) ∧
      Justified s.log := by
    rw [← hpass.2.1]
    exact Iff.rfl
  rw [hdef, and_iff_left hlog]
  constructor
  · rintro ⟨hoffer, _, server, hsend⟩
    refine ⟨hoffer, fun hack => ?_⟩
    cases hbefore : s.log with
    | nil => simp [hbefore, Acknowledged] at hack
    | cons event before =>
      cases event with
      | discover _ _ | offer _ _ | request _ _ _ =>
        rw [hbefore] at hack
        exact hack
      | configure address xid =>
        -- the request that the first acknowledgement answered has an older transaction id
        have hbumped := (hinv hoffer).bumped address xid before hbefore
        rw [hbefore] at hlog hsend
        obtain ⟨⟨_, _, server', hsend'⟩, _⟩ := hlog
        have hskip : lastSend (.configure address xid :: before) = lastSend before := rfl
        rw [hskip, hsend', Option.some.injEq, Event.request.injEq] at hsend
        exact nextXid_ne xid (hbumped.symm.trans hsend.1.symm)
  · rintro ⟨hoffer, hack⟩
    have hrem := hinv hoffer
    obtain ⟨xid, server, hsend, hxid⟩ := hrem.asked
    have hxid' : xid = s.xid := hxid.resolve_right hack
    exact ⟨hoffer, hrem.offered, server, hxid' ▸ hsend⟩

/-- **One step** keeps the log justified exactly when it is timely. -/
lemma justified_step (hinv : Inv s) (hlog : Justified s.log) (h : step s l = some t) :
    Justified t.log ↔ Timely s l := by
  by_cases hacc : Accepts s l
  · obtain ⟨p, info, hpass, rfl⟩ := step_of_accepts hacc h
    rw [justified_configure hinv hlog hpass, Timely]
    exact ⟨fun h _ => h, fun h => h hacc⟩
  · rw [justified_of_not_accepts hacc h]
    exact ⟨fun _ h => absurd h hacc, fun _ => hlog⟩

lemma timely_of_refused (h : step s l = none) : Timely s l := by
  intro hacc
  cases l with
  | receive data behind =>
    obtain ⟨hrx, hneg, p, hdata, hpass, hop, hmatch, hread⟩ := hacc
    obtain ⟨info, hinfo⟩ := Option.isSome_iff_exists.mp hread
    rw [step, if_pos ⟨hrx, hneg⟩, State.receive, hdata] at h
    have hoffer : messageTypeDhcpack ≠ messageTypeDhcpoffer := by decide
    simp [hpass, hop, hoffer, hmatch, hinfo] at h
  | timeout => cases hacc
  | negotiate => cases hacc
  | discover p => cases hacc

/-- **What the client asked for.** All addresses that a run configures are the ones it asked for,
at every moment of the run, exactly when every acknowledgement that passes the checks in it is
timely. -/
theorem justified_iff_timely (preferred : ℕ) (labels : List Label) :
    (∀ before, before <+: labels → ∀ t, Runs.run step (init preferred) before = some t →
        Justified t.log) ↔
      Runs.Along step Timely (init preferred) labels :=
  Runs.along_iff (I := Inv) (P := fun s => Justified s.log) (fun _ _ _ => inv_step)
    (fun _ _ _ => justified_step) (fun _ _ => timely_of_refused) labels (init preferred)
    (inv_init preferred) trivial

/-- An acknowledgement with the counter's first value, before anything was sent. -/
def earlyAck : List UInt8 :=
  replyHeader ++ [optionMessageType, 1, messageTypeDhcpack, optionEnd]

theorem earlyAck_not_justified :
    ¬∀ (preferred : ℕ) (labels : List Label) (t : State),
      Runs.run step (init preferred) labels = some t → Justified t.log := by
  intro h
  have hends : Ends [optionMessageType, 1, messageTypeDhcpack, optionEnd] :=
    @Ends.option _ 1 [messageTypeDhcpack] _ (by decide) (by decide) rfl (.stop [])
  have hacc : Accepts (init 0) (.receive earlyAck []) :=
    ⟨rfl, rfl, _, ofData_replyHeader _, reply_passes _, findMessageType_of_hasType (.here _),
      ⟨rfl, rfl⟩, readOptions_isSome_iff.mpr (by rw [List.append_nil]; exact hends)⟩
  cases hstep : step (init 0) (.receive earlyAck []) with
  | none => exact (timely_of_refused hstep hacc).1 rfl
  | some t =>
    have hjust := h 0 [.receive earlyAck []] t (by rw [Runs.run_cons, hstep]; rfl)
    exact ((justified_step (inv_init 0) trivial hstep).mp hjust hacc).1 rfl

end KernelModel.Dhcp
