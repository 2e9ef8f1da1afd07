import KernelModel.Dhcp

/-!
Which options keep the receive thread inside the packet: the bytes that are a row of options with an
end, or that have the type of the message before the row breaks off.
-/

namespace KernelModel.Dhcp

open LittleEndian

/-- A row of options with an end. -/
inductive Ends : List UInt8 → Prop
  | stop (rest : List UInt8) : Ends (optionEnd :: rest)
  | pad {rest : List UInt8} : Ends rest → Ends (0 :: rest)
  | option {type length : UInt8} {value rest : List UInt8} :
      type ≠ optionEnd → type ≠ 0 → value.length = length.toNat → Ends rest →
        Ends (type :: length :: (value ++ rest))

/-- A row of options whose first type of the message is `op`; it may break off behind it. -/
inductive HasType (op : UInt8) : List UInt8 → Prop
  | here (rest : List UInt8) : HasType op (optionMessageType :: 1 :: op :: rest)
  | pad {rest : List UInt8} : HasType op rest → HasType op (0 :: rest)
  | option {type length : UInt8} {value rest : List UInt8} :
      type ≠ optionEnd → type ≠ 0 → ¬(type = optionMessageType ∧ length = 1) →
        value.length = length.toNat → HasType op rest →
        HasType op (type :: length :: (value ++ rest))

variable {op type length : UInt8} {options value rest : List UInt8} {info : NetInfo}

/-! ### One option -/

@[simp] lemma findMessageType_nil : findMessageType [] = none := by
  rw [findMessageType]

@[simp] lemma findMessageType_end : findMessageType (optionEnd :: rest) = some messageTypeNone := by
  rw [findMessageType.eq_def]
  exact if_pos rfl

@[simp] lemma findMessageType_pad : findMessageType (0 :: rest) = findMessageType rest := by
  rw [findMessageType.eq_def]
  rfl

@[simp] lemma findMessageType_message (hend : type ≠ optionEnd) (hpad : type ≠ 0) :
    findMessageType (type :: length :: value) =
      if type = optionMessageType ∧ length = 1 then value.head?
      else findMessageType (value.drop length.toNat) := by
  rw [findMessageType.eq_def]
  simp only [if_neg hend, if_neg hpad]

@[simp] lemma readOptions_nil : readOptions info [] = none := by
  rw [readOptions]

@[simp] lemma readOptions_end : readOptions info (optionEnd :: rest) = some info := by
  rw [readOptions.eq_def]
  exact if_pos rfl

lemma addOption_pad : info.addOption 0 length value = some info := by
  simp [NetInfo.addOption, optionSubnetMask, optionRouter, optionDomainNameServer,
    optionIpAddressLeaseTime]

lemma readOptions_pad : readOptions info (0 :: rest) = readOptions info rest := by
  rw [readOptions.eq_def]
  simp only [if_neg (show (0 : UInt8) ≠ optionEnd by decide)]
  cases rest with
  | nil => simp
  | cons length value => simp [addOption_pad]

lemma readOptions_option (hend : type ≠ optionEnd) (hpad : type ≠ 0) :
    readOptions info (type :: length :: value) =
      (info.addOption type length value).bind fun info =>
        readOptions info (value.drop length.toNat) := by
  rw [readOptions.eq_def]
  simp only [if_neg hend, if_neg hpad]

lemma addOption_isSome (hlength : length.toNat ≤ value.length) :
    (info.addOption type length value).isSome := by
  have hread : length ≥ 4 → (getU32 value).isSome := by
    intro h4
    have h4' : 4 ≤ length.toNat := UInt8.le_iff_toNat_le.mp h4
    rw [getU32, if_neg (by omega)]
    rfl
  rw [NetInfo.addOption]
  split_ifs with h1 h2 h3 h4
  · simpa using hread (by rw [h1.2]; decide)
  · simpa using hread h2.2
  · simpa using hread h3.2
  · simpa using hread (by rw [h4.2]; decide)
  · rfl

lemma drop_eq_nil_or (value : List UInt8) (length : UInt8) :
    value.drop length.toNat = [] ∨
      ∃ front, front.length = length.toNat ∧ value = front ++ value.drop length.toNat := by
  by_cases h : length.toNat ≤ value.length
  · exact .inr ⟨value.take length.toNat, by simp [h], (List.take_append_drop _ _).symm⟩
  · exact .inl (List.drop_eq_nil_of_le (by omega))

lemma Ends.of_drop (hend : type ≠ optionEnd) (hpad : type ≠ 0)
    (h : Ends (value.drop length.toNat)) : Ends (type :: length :: value) := by
  rcases drop_eq_nil_or value length with hnil | ⟨front, hfront, happend⟩
  · rw [hnil] at h
    cases h
  · rw [happend]
    exact .option hend hpad hfront h

lemma HasType.of_drop (hend : type ≠ optionEnd) (hpad : type ≠ 0)
    (htype : ¬(type = optionMessageType ∧ length = 1))
    (h : HasType op (value.drop length.toNat)) : HasType op (type :: length :: value) := by
  rcases drop_eq_nil_or value length with hnil | ⟨front, hfront, happend⟩
  · rw [hnil] at h
    cases h
  · rw [happend]
    exact .option hend hpad htype hfront h

/-! ### The loops -/

/-- **The second loop** stays inside exactly when the options have an end. -/
lemma readOptions_isSome_iff : (readOptions info options).isSome ↔ Ends options := by
  constructor
  · intro h
    induction info, options using readOptions.induct with
    | case1 info => simp at h
    | case2 info rest => exact .stop rest
    | case3 info type hend =>
      by_cases hpad : type = 0
      · subst hpad
        simp [readOptions_pad] at h
      · rw [readOptions.eq_def] at h
        simp [hend] at h
    | case4 info type hend length value ihrest ihdrop =>
      by_cases hpad : type = 0
      · subst hpad
        rw [readOptions_pad] at h
        exact .pad (ihrest info h)
      · rw [readOptions_option hend hpad, Option.isSome_bind, Option.any_eq_true_iff_get] at h
        obtain ⟨_, hdrop⟩ := h
        exact .of_drop hend hpad (ihdrop _ hdrop)
  · intro h
    induction h generalizing info with
    | stop rest => simp
    | pad _ ih => rw [readOptions_pad]; exact ih
    | @option type length value rest hend hpad hlength _ ih =>
      have hadd : (info.addOption type length (value ++ rest)).isSome :=
        addOption_isSome (by rw [List.length_append]; omega)
      obtain ⟨info', hinfo'⟩ := Option.isSome_iff_exists.mp hadd
      rw [readOptions_option hend hpad, hinfo', Option.bind_some, ← hlength, List.drop_left]
      exact ih

lemma findMessageType_of_hasType (h : HasType op options) : findMessageType options = some op := by
  induction h with
  | here rest =>
    rw [findMessageType_message (by decide) (by decide), if_pos ⟨rfl, rfl⟩, List.head?_cons]
  | pad _ ih => rw [findMessageType_pad, ih]
  | @option type length value rest hend hpad htype hlength _ ih =>
    rw [findMessageType_message hend hpad, if_neg htype, ← hlength, List.drop_left, ih]

lemma findMessageType_of_ends (h : Ends options) : (findMessageType options).isSome := by
  induction h with
  | stop rest => simp
  | pad _ ih => rw [findMessageType_pad]; exact ih
  | @option type length value rest hend hpad hlength _ ih =>
    rw [findMessageType_message hend hpad]
    split_ifs with htype
    · obtain ⟨op, value⟩ | _ := value
      · rw [htype.2] at hlength
        simp at hlength
      · rfl
    · rw [← hlength, List.drop_left]
      exact ih

/-- What the first loop returns: a type that the options have, or none at their end. -/
lemma findMessageType_cases (h : findMessageType options = some op) :
    HasType op options ∨ Ends options ∧ op = messageTypeNone := by
  induction options using findMessageType.induct with
  | case1 => simp at h
  | case2 rest =>
    rw [findMessageType_end, Option.some.injEq] at h
    exact .inr ⟨.stop rest, h.symm⟩
  | case3 rest hend ih =>
    rw [findMessageType_pad] at h
    rcases ih h with htype | ⟨hends, hop⟩
    · exact .inl htype.pad
    · exact .inr ⟨hends.pad, hop⟩
  | case4 type hend hpad =>
    rw [findMessageType.eq_def] at h
    simp [hend, hpad] at h
  | case5 type hend hpad length value htype =>
    rw [findMessageType_message hend hpad, if_pos htype, List.head?_eq_some_iff] at h
    obtain ⟨rest, rfl⟩ := h
    obtain ⟨rfl, rfl⟩ := htype
    exact .inl (.here rest)
  | case6 type hend hpad length value htype ih =>
    rw [findMessageType_message hend hpad, if_neg htype] at h
    rcases ih h with hdrop | ⟨hends, hop⟩
    · exact .inl (.of_drop hend hpad htype hdrop)
    · exact .inr ⟨.of_drop hend hpad hends, hop⟩

/-- **The first loop** stays inside exactly when the options have an end or a type of the
message. -/
lemma findMessageType_isSome_iff :
    (findMessageType options).isSome ↔ Ends options ∨ ∃ op, HasType op options := by
  constructor
  · intro h
    obtain ⟨op, hop⟩ := Option.isSome_iff_exists.mp h
    rcases findMessageType_cases hop with htype | ⟨hends, _⟩
    · exact .inr ⟨op, htype⟩
    · exact .inl hends
  · rintro (hends | ⟨op, htype⟩)
    · exact findMessageType_of_ends hends
    · rw [findMessageType_of_hasType htype]
      rfl

lemma findMessageType_eq_iff (hop : op ≠ messageTypeNone) :
    findMessageType options = some op ↔ HasType op options := by
  refine ⟨fun h => ?_, findMessageType_of_hasType⟩
  rcases findMessageType_cases h with htype | ⟨_, hnone⟩
  · exact htype
  · exact absurd hnone hop

/-! ### The receive thread -/

variable {s : State} {p : Packet} {data : List UInt8}

/-- **The receive thread** stays inside a packet that passes the header checks exactly when its
options have an end, or have the type of the message and are not those of an acknowledgement that is
accepted. -/
theorem receive_isSome_iff (hdata : Packet.ofData data = some p) (hpass : p.Passes s.xid) :
    (s.receive data []).isSome ↔
      Ends p.options ∨
        (∃ op, HasType op p.options) ∧ ¬(HasType messageTypeDhcpack p.options ∧ s.Matches p) := by
  rw [State.receive, hdata]
  simp only [not_not.mpr hpass, if_false, List.append_nil]
  cases hfind : findMessageType p.options with
  | none =>
    have hnone : ¬(Ends p.options ∨ ∃ op, HasType op p.options) :=
      findMessageType_isSome_iff.not.mp (by simp [hfind])
    push Not at hnone
    simp [hnone]
  | some op =>
    have hsome :=
      findMessageType_isSome_iff.mp (by rw [hfind]; rfl : (findMessageType p.options).isSome)
    have hack : HasType messageTypeDhcpack p.options ↔ op = messageTypeDhcpack := by
      rw [← findMessageType_eq_iff (by decide), hfind, Option.some.injEq]
    rw [hack, Option.bind_some]
    by_cases hop : op = messageTypeDhcpack
    · have hoffer : op ≠ messageTypeDhcpoffer := by rw [hop]; decide
      rw [if_neg hoffer, if_pos hop]
      by_cases hmatch : s.Matches p
      · rw [if_neg (not_not.mpr hmatch), Option.isSome_map, readOptions_isSome_iff]
        tauto
      · rw [if_pos hmatch]
        simp only [Option.isSome_some, true_iff]
        tauto
    · have hall : (if op = messageTypeDhcpoffer then some (s.answerOffer p)
          else if op = messageTypeDhcpack then
            if ¬s.Matches p then some s
            else (readOptions { s.info with leaseTime := 0 } p.options).map (s.configure p)
          else if op = messageTypeDhcpnak then some s.sendDiscoverRequest else some s).isSome := by
        rw [if_neg hop]
        split_ifs <;> rfl
      rw [iff_true_left hall]
      tauto

/-! ### Two packets -/

/-- The bytes before the options, of a reply to the first packet that a client can wait for. -/
def replyHeader : List UInt8 :=
  opBootreply :: (List.replicate 235 0 ++ [0x63, 0x82, 0x53, 0x63])

def reply (options : List UInt8) : Packet := ⟨opBootreply, 0, 0, 0, cookie, options⟩

set_option maxRecDepth 4096 in
lemma ofData_replyHeader (options : List UInt8) :
    Packet.ofData (replyHeader ++ options) = some (reply options) := by
  have hlength : replyHeader.length = sizeofPacket := rfl
  have hbytes : ∀ i < sizeofPacket, (replyHeader ++ options).getD i 0 = replyHeader.getD i 0 := by
    intro i hi
    rw [List.getD_eq_getElem?_getD, List.getD_eq_getElem?_getD,
      List.getElem?_append_left (hlength ▸ hi)]
  have hnumber : ∀ off, off + 4 ≤ sizeofPacket →
      getBig 4 (fun i => (replyHeader ++ options).getD i 0) off =
        getBig 4 (fun i => replyHeader.getD i 0) off := by
    intro off hoff
    simp only [sizeofPacket] at hoff hbytes
    simp (disch := omega) only [getBig, hbytes]
  rw [Packet.ofData, if_neg (by rw [List.length_append]; omega), ← hlength, List.drop_left]
  simp only [hbytes 0 (by decide), hnumber 4 (by decide), hnumber 16 (by decide),
    hnumber 20 (by decide), hnumber 236 (by decide), reply, Option.some.injEq, Packet.mk.injEq,
    and_true]
  decide +kernel

lemma reply_passes (options : List UInt8) : (reply options).Passes (init 0).xid := ⟨rfl, rfl, rfl⟩

/-- An offer with a byte of padding, its type, a router and the end. -/
def offerOptions : List UInt8 :=
  [0, optionMessageType, 1, messageTypeDhcpoffer, optionRouter, 4, 10, 0, 0, 1, optionEnd]

lemma ends_offerOptions : Ends offerOptions :=
  .pad (@Ends.option _ 1 [messageTypeDhcpoffer] _ (by decide) (by decide) rfl
    (@Ends.option _ 4 [10, 0, 0, 1] _ (by decide) (by decide) rfl (.stop [])))

theorem receive_offer : ((init 0).receive (replyHeader ++ offerOptions) []).isSome :=
  (receive_isSome_iff (ofData_replyHeader offerOptions) (reply_passes _)).mpr
    (.inl ends_offerOptions)

/-- A packet that passes the checks and has no options: the first loop looks behind it. -/
theorem receive_no_options :
    ¬∀ (s : State) (data : List UInt8) (p : Packet), Packet.ofData data = some p →
      p.Passes s.xid → (s.receive data []).isSome := by
  intro h
  have hsome := h (init 0) (replyHeader ++ []) _ (ofData_replyHeader []) (reply_passes [])
  rw [State.receive, ofData_replyHeader] at hsome
  simp only [not_not.mpr (reply_passes []), if_false, List.append_nil] at hsome
  rw [show (reply []).options = [] from rfl, findMessageType_nil] at hsome
  simp at hsome

end KernelModel.Dhcp
