import Mathlib.Data.Nat.Bitwise
import LibCoap.Packet.Acceptance
import LibCoap.Packet.Additions

/-! # Runs of packet operations

A packet is one object on which the public operations are called in any order, so its invariants are
invariants of runs. Two of them are kept by every operation but `parse`: the options are ordered by
their numbers, and the bitmap has a bit for each of them. What `parse` leaves is the running sum of the
deltas in 16 bits, and a cleared bitmap (`parse_leaves`); from this it follows for which runs the two
invariants hold in every state (`run_ordered_iff`, `run_bitmap_iff`). -/

namespace LibCoap

open Machine Wire

/-- The public operations that change the options or might be expected to. -/
inductive Op where
  /-- The datagram, and what stands behind it in memory. -/
  | parse (datagram beyond : List UInt8)
  | addOption (number : Nat) (value : List UInt8)
  | cleanOptions
  | findOptions (number : UInt16)
  | makeRequest (random : Nat → UInt8) (messageType : MessageType) (code : MessageCode)
      (messageId : UInt16) (tokenLength : Nat) (payload : List UInt8)
  | prepareAnswer (messageType : MessageType) (messageId : UInt16) (responseCode : MessageCode)
      (payload : List UInt8)
  | clearInstance

namespace Packet

/-- What an operation does; the verdict of `parse` and what `find_options` finds are dropped. -/
def step (std : StdSort) (p : Packet) : Op → Exec Packet
  | .parse datagram beyond => (p.parse (datagram ++ beyond) datagram.length).map Prod.snd
  | .addOption number value => p.addOption std number value
  | .cleanOptions => pure p.cleanOptions
  | .findOptions number => (p.findOptions std number).map Prod.snd
  | .makeRequest random messageType code messageId tokenLength payload =>
    p.makeRequest random messageType code messageId tokenLength payload
  | .prepareAnswer messageType messageId responseCode payload =>
    pure (p.prepareAnswer messageType messageId responseCode payload)
  | .clearInstance => pure p.clearInstance

/-- A run of operations. -/
def run (std : StdSort) (p : Packet) (ops : List Op) : Exec Packet := ops.foldlM (step std) p

/-! ## What `parse` leaves -/

/-- Where no option begins, the option loop ends with the options it has. -/
theorem parseOptionsLoop_halts {t : List UInt8} (hstop : Stops sourceDialect t)
    (pre beyond : List UInt8) {c : OptionCursor} {length : Nat} (hi : c.i = pre.length)
    (hlength : length = pre.length + t.length) {fuel : Nat} {out : Option ErrorCode × OptionCursor}
    (h : parseOptionsLoop (pre ++ (t ++ beyond)) length (fuel + 1) c = .ok out) : out.2 = c := by
  cases t with
  | nil =>
    rw [List.nil_append, parseOptionsLoop_end pre beyond hi hlength] at h
    split at h
    · cases h
    · cases h
      rfl
  | cons head es =>
    rw [List.length_cons] at hlength
    rw [List.cons_append] at h
    by_cases hmark : head = payloadMarker
    · rw [hmark, parseOptionsLoop_marker pre _ hi] at h
      cases h
      rfl
    -- a head byte that starts no option is rejected, also where a field is cut short
    have hrejected : ∀ it, parseOption (pre ++ head :: (es ++ beyond)) length head c = .ok it →
        ∃ e, it = .rejected e := by
      intro it hit
      by_cases hcut : Cut sourceDialect (head :: es)
      · obtain ⟨hend, hmore⟩ := parseOption_cut hcut pre beyond hi (by omega)
        by_cases hnil : beyond = []
        · rw [hend hnil] at hit
          cases hit
        · obtain ⟨e, he⟩ := hmore hnil
          rw [he] at hit
          exact ⟨e, (Except.ok.inj hit).symm⟩
      · obtain ⟨e, he⟩ := parseOption_stops hstop hcut hmark pre beyond hi (by omega)
        rw [he] at hit
        exact ⟨e, (Except.ok.inj hit).symm⟩
    rw [parseOptionsLoop_step pre (es ++ beyond) length hmark hi (by omega) fuel] at h
    obtain ⟨it, hit, h⟩ := bind_eq_ok.mp h
    obtain ⟨e, rfl⟩ := hrejected it hit
    cases h
    rfl

/-- The header is parsed without a look at the options. -/
theorem parseHeader_keeps {p q : Packet} {buffer : List UInt8} {length : Nat} {verdict : Bool}
    (h : p.parseHeader buffer length = .ok (verdict, q)) :
    q.options = p.options ∧ q.optionBitmap = p.optionBitmap := by
  rw [parseHeader] at h
  split at h
  · cases h
    exact ⟨rfl, rfl⟩
  obtain ⟨head, -, h⟩ := bind_eq_ok.mp h
  by_cases hversion : coapVersion ≠ (Header.ofByte head).version
  · simp only [if_pos hversion] at h
    cases h
    exact ⟨rfl, rfl⟩
  simp only [if_neg hversion] at h
  obtain ⟨code, -, h⟩ := bind_eq_ok.mp h
  obtain ⟨high, -, h⟩ := bind_eq_ok.mp h
  obtain ⟨low, -, h⟩ := bind_eq_ok.mp h
  cases h
  exact ⟨rfl, rfl⟩

/-- So is the token. -/
theorem parseToken_keeps {p q : Packet} {buffer : List UInt8} {length : Nat} {verdict : Bool}
    (h : p.parseToken buffer length = .ok (verdict, q)) :
    q.options = p.options ∧ q.optionBitmap = p.optionBitmap := by
  rw [parseToken] at h
  dsimp only at h
  split at h
  · cases h
    exact ⟨rfl, rfl⟩
  split at h
  · cases h
    exact ⟨rfl, rfl⟩
  obtain ⟨bytes, -, h⟩ := bind_eq_ok.mp h
  cases h
  exact ⟨rfl, rfl⟩

/-- Behind a verdict of the first functions the payload is all that can change. -/
theorem parse_of_upToOptions {p q : Packet} {buffer : List UInt8} {length : Nat} {verdict : Bool}
    (h : p.parse buffer length = .ok (verdict, q)) :
    ∃ v q', p.parseUpToOptions buffer length = .ok (v, q') ∧ q.options = q'.options ∧
      q.optionBitmap = q'.optionBitmap := by
  rw [parse, andThen] at h
  obtain ⟨⟨v, q'⟩, hfirst, h⟩ := bind_eq_ok.mp h
  refine ⟨v, q', hfirst, ?_⟩
  cases v with
  | false =>
    cases h
    exact ⟨rfl, rfl⟩
  | true =>
    simp only [Bool.not_true, Bool.false_eq_true, if_false, parsePayload] at h
    obtain ⟨_, -, h⟩ := bind_eq_ok.mp h
    obtain ⟨bytes, -, h⟩ := bind_eq_ok.mp h
    cases h
    exact ⟨rfl, rfl⟩

/-- The options `os` stand in `b` behind a well-formed fixed part, and perhaps more behind them. -/
def Holds (b : List UInt8) (os : List Item) : Prop :=
  ∃ (f : Frame) (bs t : List UInt8), f.Valid ∧ b = f.bytes ∧ f.body = bs ++ t ∧
    Sequence sourceDialect os bs

/-- **What `parse` leaves**, whatever its verdict: behind a malformed fixed part the options and the
bitmap stay; otherwise the options are those of the longest sequence in the datagram, with their
running numbers, and the bitmap is cleared. -/
theorem parse_leaves {p q : Packet} {b beyond : List UInt8} {verdict : Bool}
    (h : p.parse (b ++ beyond) b.length = .ok (verdict, q)) :
    ((∀ os, ¬Holds b os) ∧ q.options = p.options ∧ q.optionBitmap = p.optionBitmap) ∨
      ∃ os, Holds b os ∧ (∀ os', Holds b os' → os' <+: os) ∧
        q.options = collect PacketOption.default.value PacketOption.default.number os ∧
        q.optionBitmap = (0, 0) := by
  obtain ⟨v, q', hupTo, hoptions, hbitmap⟩ := parse_of_upToOptions h
  rw [hoptions, hbitmap]
  by_cases hf : ∃ f : Frame, f.Valid ∧ b = f.bytes
  · obtain ⟨f, hvalid, rfl⟩ := hf
    obtain ⟨os, bs, t, hbody, hos, hstop⟩ := exists_sequence sourceDialect f.body
    obtain ⟨pre, c, fuel, hbytes, hi, hcollected, hloop⟩ :=
      parseUpToOptions_sequence hvalid hbody hos p beyond
    rw [hloop] at hupTo
    obtain ⟨out, hout, hconcluded⟩ := bind_eq_ok.mp hupTo
    have hcursor := parseOptionsLoop_halts hstop pre beyond hi
      (by rw [hbytes, List.length_append]) hout
    refine .inr ⟨os, ⟨f, bs, t, hvalid, rfl, hbody, hos⟩, ?_, ?_⟩
    · rintro os' ⟨g, bs', t', hg, hbytes', hbody', hos'⟩
      obtain rfl := hvalid.unique hg hbytes'
      exact hos.longest hstop hos' (hbody.symm.trans hbody')
    · -- the options are those of the cursor, whether the loop has met a marker or a malformed option
      obtain ⟨stopped, c'⟩ := out
      obtain rfl : c' = c := hcursor
      rw [← hcollected]
      cases stopped with
      | none =>
        cases hconcluded
        exact ⟨rfl, rfl⟩
      | some e =>
        cases hconcluded
        exact ⟨rfl, rfl⟩
  · refine .inl ⟨fun os hos => ?_, ?_⟩
    · obtain ⟨f, bs, t, hvalid, hbytes, -⟩ := hos
      exact hf ⟨f, hvalid, hbytes⟩
    · have hnonempty : b ≠ [] := by
        rintro rfl
        cases hupTo
      have hlength : b.length ≠ 0 := by simpa using hnonempty
      obtain ⟨r, hr⟩ := parseFixed_malformed hnonempty hf p beyond
      rw [parseUpToOptions, assertThat_of_pos hlength, ok_bind, hr, andThen_false] at hupTo
      cases hupTo
      rw [andThen] at hr
      obtain ⟨⟨v, r⟩, hheader, hr⟩ := bind_eq_ok.mp hr
      obtain ⟨hkeep, hkeep'⟩ := parseHeader_keeps hheader
      cases v with
      | false =>
        cases hr
        exact ⟨hkeep, hkeep'⟩
      | true =>
        obtain ⟨htoken, htoken'⟩ := parseToken_keeps hr
        exact ⟨htoken.trans hkeep, htoken'.trans hkeep'⟩

/-- The first of the options that a datagram holds. -/
theorem Holds.first {b : List UInt8} {os os' : List Item} (h : Holds b os) (hpre : os' <+: os) :
    Holds b os' := by
  obtain ⟨f, bs, t, hf, hb, hbody, hos⟩ := h
  obtain ⟨more, rfl⟩ := hpre
  obtain ⟨cs, cs', rfl, hos', -⟩ := hos.of_append
  exact ⟨f, cs, cs' ++ t, hf, hb, by rw [hbody, List.append_assoc], hos'⟩

/-- A delta that is read fits into 16 bits. -/
theorem Holds.delta_lt {b : List UInt8} {os : List Item} (h : Holds b os) :
    ∀ o ∈ os, o.delta < 65536 := by
  obtain ⟨f, bs, t, -, -, -, hos⟩ := h
  clear t
  induction hos with
  | nil => exact fun o ho => absurd ho List.not_mem_nil
  | cons first rest ih =>
    refine List.forall_mem_cons.mpr ⟨?_, ih⟩
    obtain @⟨head, ds, ls, value, delta, -, hd, -⟩ := first
    exact hd.lt_of_source

/-! ## Options in order -/

/-- The options are ordered by their numbers. -/
def Ordered (p : Packet) : Prop := p.options.Pairwise (·.number ≤ ·.number)

/-- **Running numbers are ordered** exactly when they never pass 16 bits. -/
theorem collect_ordered_iff {os : List Item} (hdelta : ∀ o ∈ os, o.delta < 65536)
    (held : List UInt8) (number : UInt16) :
    ((∀ opt ∈ collect held number os, number ≤ opt.number) ∧
      (collect held number os).Pairwise (·.number ≤ ·.number)) ↔
      number.toNat + (os.map Item.delta).sum ≤ 65535 := by
  induction os generalizing held number with
  | nil =>
    have hlt := number.toNat_lt
    simp only [collect, List.map_nil, List.sum_nil]
    exact ⟨fun _ => by omega, fun _ => ⟨fun _ h => absurd h List.not_mem_nil, .nil⟩⟩
  | cons o os ih =>
    obtain ⟨ho, hos⟩ := List.forall_mem_cons.mp hdelta
    have hnext := ih hos [] (number + UInt16.ofNat o.delta)
    have hlt := number.toNat_lt
    have hadd : (number + UInt16.ofNat o.delta).toNat = (number.toNat + o.delta) % 65536 := by
      rw [UInt16.toNat_add, UInt16.toNat_ofNat']
      omega
    rw [collect, List.forall_mem_cons, List.pairwise_cons, List.map_cons, List.sum_cons]
    constructor
    · rintro ⟨⟨hle, -⟩, hbelow, hpair⟩
      -- a number that is not below the one before has not been wrapped
      have hsum := hnext.mp ⟨hbelow, hpair⟩
      have hle' : number.toNat ≤ (number + UInt16.ofNat o.delta).toNat :=
        UInt16.le_iff_toNat_le.mp hle
      omega
    · intro hsum
      obtain ⟨hbelow, hpair⟩ := hnext.mpr (by omega)
      have hle : number ≤ number + UInt16.ofNat o.delta := by
        rw [UInt16.le_iff_toNat_le]
        omega
      exact ⟨⟨hle, fun opt hopt => UInt16.le_trans hle (hbelow opt hopt)⟩, hbelow, hpair⟩

end Packet

/-- The deltas of the options that are parsed add up to at most 16 bits. -/
def Op.Unwrapped : Op → Prop
  | .parse datagram _ => ∀ os, Packet.Holds datagram os → (os.map Item.delta).sum ≤ 65535
  | _ => True

namespace Packet

/-- Building a request leaves options and bitmap. -/
theorem makeRequest_keeps {p p' : Packet} {random : Nat → UInt8} {messageType : MessageType}
    {code : MessageCode} {messageId : UInt16} {tokenLength : Nat} {payload : List UInt8}
    (h : p.makeRequest random messageType code messageId tokenLength payload = .ok p') :
    p'.options = p.options ∧ p'.optionBitmap = p.optionBitmap := by
  rw [makeRequest] at h
  obtain ⟨_, -, h⟩ := bind_eq_ok.mp h
  split at h
  · cases h
    exact ⟨rfl, rfl⟩
  · cases h
    exact ⟨rfl, rfl⟩

/-- **Parsing and the order**: deltas that pass 16 bits break it. -/
theorem parse_ordered_iff {p q : Packet} {b beyond : List UInt8} {verdict : Bool} (hp : p.Ordered)
    (h : p.parse (b ++ beyond) b.length = .ok (verdict, q)) :
    q.Ordered ↔ (Op.parse b beyond).Unwrapped := by
  rcases parse_leaves h with ⟨hnone, hoptions, -⟩ | ⟨os, hos, hlongest, hoptions, -⟩
  · rw [Ordered, hoptions]
    exact ⟨fun _ os hos => absurd hos (hnone os), fun _ => hp⟩
  · have hiff := collect_ordered_iff hos.delta_lt PacketOption.default.value
      PacketOption.default.number
    have hzero : PacketOption.default.number.toNat = 0 := rfl
    rw [hzero, Nat.zero_add] at hiff
    rw [Ordered, hoptions]
    constructor
    · intro hordered os' hos'
      -- a part of the options has no larger sum
      have hsum := hiff.mp ⟨fun opt _ => UInt16.le_iff_toNat_le.mpr (Nat.zero_le _), hordered⟩
      obtain ⟨more, rfl⟩ := hlongest os' hos'
      rw [List.map_append, List.sum_append] at hsum
      omega
    · exact fun hall => (hiff.mpr (hall os hos)).2

/-- **One operation and the order**: only deltas that pass 16 bits break it. -/
theorem step_ordered_iff {std : StdSort} {p p' : Packet} {op : Op} (hp : p.Ordered)
    (h : p.step std op = .ok p') : p'.Ordered ↔ op.Unwrapped := by
  cases op with
  | parse datagram beyond =>
    obtain ⟨⟨verdict, q⟩, hparse, rfl⟩ := map_eq_ok h
    exact parse_ordered_iff hp hparse
  | addOption number value => exact iff_of_true (addOption_extends h).2.2.ordered trivial
  | cleanOptions =>
    cases h
    exact iff_of_true .nil trivial
  | findOptions number =>
    obtain ⟨⟨found, q⟩, hfind, rfl⟩ := map_eq_ok h
    rw [(findOptions_eq_ok.mp hfind).2]
    exact iff_of_true (std.ordered _) trivial
  | makeRequest =>
    refine iff_of_true ?_ trivial
    rw [Ordered, (makeRequest_keeps h).1]
    exact hp
  | prepareAnswer =>
    cases h
    exact iff_of_true hp trivial
  | clearInstance =>
    cases h
    exact iff_of_true hp trivial

/-- **Options stay ordered** in every state of a run exactly when no datagram that is parsed in it
has options whose deltas add up to more than 16 bits. -/
theorem run_ordered_iff (std : StdSort) {ops : List Op} {p : Packet}
    (h : Packet.fresh.run std ops = .ok p) :
    (∀ n q, Packet.fresh.run std (ops.take n) = .ok q → q.Ordered) ↔ ∀ op ∈ ops, op.Unwrapped :=
  run_always_iff (fun _ _ _ hs hstep => step_ordered_iff hs hstep) .nil h

/-- Parsing one option and adding another. -/
theorem run_ordered_iff_sample :
    ∃ p, Packet.fresh.run .insertion [.parse [0x40, 0x01, 0x00, 0x01, 0xD0, 0x2F, 0x00] [],
        .addOption 11 [0x61]] = .ok p ∧
      ((∀ n q, Packet.fresh.run .insertion ([.parse [0x40, 0x01, 0x00, 0x01, 0xD0, 0x2F, 0x00] [],
        .addOption 11 [0x61]].take n) = .ok q → q.Ordered) ↔
      ∀ op ∈ [Op.parse [0x40, 0x01, 0x00, 0x01, 0xD0, 0x2F, 0x00] [], .addOption 11 [0x61]],
        op.Unwrapped) := by
  have hrun : (Packet.fresh.run .insertion [.parse [0x40, 0x01, 0x00, 0x01, 0xD0, 0x2F, 0x00] [],
      .addOption 11 [0x61]]).map (fun p => p.options.length) = .ok 2 := by decide
  obtain ⟨p, hp, -⟩ := map_eq_ok hrun
  exact ⟨p, hp, run_ordered_iff .insertion hp⟩

/-- After an option with number 1 a delta of 65535 leads back to number 0. -/
theorem not_ordered_wrapped :
    ∃ p, Packet.fresh.run .insertion
        [.parse [0x40, 0x01, 0x00, 0x01, 0x10, 0xE0, 0xF2, 0xFE, 0x00] []] = .ok p ∧
      ¬p.Ordered := by
  have hrun : (Packet.fresh.run .insertion
      [.parse [0x40, 0x01, 0x00, 0x01, 0x10, 0xE0, 0xF2, 0xFE, 0x00] []]).map Packet.options =
      .ok [⟨0x10, 1, [0]⟩, ⟨0xE0, 0, []⟩] := by decide
  obtain ⟨p, hp, hoptions⟩ := map_eq_ok hrun
  refine ⟨p, hp, fun hordered => ?_⟩
  rw [Ordered, hoptions] at hordered
  exact absurd (List.rel_of_pairwise_cons hordered (List.mem_singleton.mpr rfl)) (by decide)

end Packet

/-! ## The bitmap -/

/-- The word with one bit. -/
theorem toNat_bit {j : Nat} (hj : j < 32) : ((1 : UInt32) <<< UInt32.ofNat j).toNat = 2 ^ j := by
  have hlt : 2 ^ j < 2 ^ 32 := Nat.pow_lt_pow_right (by decide) hj
  rw [UInt32.toNat_shiftLeft, UInt32.toNat_ofNat', Nat.shiftLeft_eq,
    Nat.mod_eq_of_lt (a := j) (by omega), Nat.mod_eq_of_lt (a := j) hj]
  show 1 * 2 ^ j % 2 ^ 32 = 2 ^ j
  rw [Nat.one_mul, Nat.mod_eq_of_lt hlt]

/-- Whether a bit of a word is set. -/
theorem and_bit_ne_zero (x : UInt32) {j : Nat} (hj : j < 32) :
    x &&& ((1 : UInt32) <<< UInt32.ofNat j) ≠ 0 ↔ x.toNat.testBit j = true := by
  have hand : (x &&& ((1 : UInt32) <<< UInt32.ofNat j)).toNat = (x.toNat.testBit j).toNat * 2 ^ j := by
    rw [UInt32.toNat_and, toNat_bit hj]
    exact Nat.and_two_pow x.toNat j
  have hpos : 0 < 2 ^ j := Nat.two_pow_pos j
  rw [Ne, ← UInt32.toNat_inj, hand]
  cases x.toNat.testBit j with
  | false => simp
  | true => simp

/-- Setting a bit of a word. -/
theorem and_bit_or_bit (x : UInt32) {i j : Nat} (hi : i < 32) (hj : j < 32) :
    (x ||| ((1 : UInt32) <<< UInt32.ofNat i)) &&& ((1 : UInt32) <<< UInt32.ofNat j) ≠ 0 ↔
      x &&& ((1 : UInt32) <<< UInt32.ofNat j) ≠ 0 ∨ i = j := by
  rw [and_bit_ne_zero _ hj, and_bit_ne_zero _ hj, UInt32.toNat_or, toNat_bit hi, Nat.testBit_or,
    Nat.testBit_two_pow, Bool.or_eq_true, decide_eq_true_eq]

/-- **Setting a bit of the bitmap** changes what is reported of one number. -/
theorem isOptionSet_setOptionBitmap (bitmap : UInt32 × UInt32) {k n : UInt8} (hk : k.toNat < 64)
    (hn : n.toNat < 64) :
    isOptionSet (setOptionBitmap bitmap k) n = true ↔
      isOptionSet bitmap n = true ∨ k.toNat = n.toNat := by
  unfold setOptionBitmap isOptionSet
  by_cases hn' : n.toNat > 31
  · by_cases hk' : k.toNat > 31
    · simp only [if_pos hn', if_pos hk', decide_eq_true_eq]
      rw [and_bit_or_bit _ (by omega) (by omega)]
      exact or_congr_right (by omega)
    · simp only [if_pos hn', if_neg hk', decide_eq_true_eq]
      exact ⟨.inl, fun h => h.resolve_right (by omega)⟩
  · by_cases hk' : k.toNat > 31
    · simp only [if_neg hn', if_pos hk', decide_eq_true_eq]
      exact ⟨.inl, fun h => h.resolve_right (by omega)⟩
    · simp only [if_neg hn', if_neg hk', decide_eq_true_eq]
      exact and_bit_or_bit _ (by omega) (by omega)

/-- Nothing is set in a cleared bitmap. -/
theorem isOptionSet_zero (n : UInt8) : isOptionSet (0, 0) n = false := by
  unfold isOptionSet
  simp

/-- The numbers of the options that are parsed are 64 or more, as they are stored in 16 bits. -/
def Op.BeyondBitmap : Op → Prop
  | .parse datagram _ => ∀ os, Packet.Holds datagram os → os ≠ [] →
      64 ≤ (os.map Item.delta).sum % 65536
  | _ => True

namespace Packet

/-- The bitmap agrees with the options on the numbers below 64. -/
def BitmapAgrees (p : Packet) : Prop :=
  ∀ n : UInt8, n.toNat < 64 →
    (isOptionSet p.optionBitmap n = true ↔ ∃ opt ∈ p.options, opt.number.toNat = n.toNat)

/-- **The running numbers** are the sums of the deltas of the first options, in 16 bits. -/
theorem number_mem_collect {os : List Item} {held : List UInt8} {number : UInt16} {k : Nat} :
    (∃ opt ∈ collect held number os, opt.number.toNat = k) ↔
      ∃ os', os' ≠ [] ∧ os' <+: os ∧ (number.toNat + (os'.map Item.delta).sum) % 65536 = k := by
  induction os generalizing held number with
  | nil =>
    constructor
    · rintro ⟨opt, hopt, -⟩
      exact absurd hopt List.not_mem_nil
    · rintro ⟨os', hne, hpre, -⟩
      exact absurd (List.prefix_nil.mp hpre) hne
  | cons o os ih =>
    have hadd : (number + UInt16.ofNat o.delta).toNat = (number.toNat + o.delta) % 65536 := by
      rw [UInt16.toNat_add, UInt16.toNat_ofNat']
      omega
    rw [collect]
    constructor
    · rintro ⟨opt, hopt, rfl⟩
      rcases List.mem_cons.mp hopt with rfl | hopt
      · exact ⟨[o], List.cons_ne_nil _ _, ⟨os, rfl⟩, by simp [hadd]⟩
      · obtain ⟨os', -, hpre, hsum⟩ := ih.mp ⟨opt, hopt, rfl⟩
        refine ⟨o :: os', List.cons_ne_nil _ _, (List.prefix_cons_inj o).mpr hpre, ?_⟩
        rw [hadd] at hsum
        rw [List.map_cons, List.sum_cons]
        omega
    · rintro ⟨os', hne, hpre, hsum⟩
      cases os' with
      | nil => exact absurd rfl hne
      | cons o' os' =>
        obtain ⟨rfl, hpre'⟩ := List.cons_prefix_cons.mp hpre
        rw [List.map_cons, List.sum_cons] at hsum
        by_cases hrest : os' = []
        · subst hrest
          rw [List.map_nil, List.sum_nil, Nat.add_zero] at hsum
          exact ⟨_, List.mem_cons_self, hadd.trans hsum⟩
        · have hmore : ((number + UInt16.ofNat o'.delta).toNat + (os'.map Item.delta).sum) % 65536 =
              k := by
            rw [hadd]
            omega
          obtain ⟨opt, hopt, hk⟩ := ih.mpr ⟨os', hrest, hpre', hmore⟩
          exact ⟨opt, List.mem_cons_of_mem _ hopt, hk⟩

/-- Without options the cleared bitmap agrees. -/
theorem bitmapAgrees_of_nil {p : Packet} (hoptions : p.options = [])
    (hbitmap : p.optionBitmap = (0, 0)) : p.BitmapAgrees := by
  intro n _
  rw [hoptions, hbitmap, isOptionSet_zero]
  simp

/-- **Parsing and the bitmap**: parsed options with numbers below 64 break it. -/
theorem parse_bitmapAgrees_iff {p q : Packet} {b beyond : List UInt8} {verdict : Bool}
    (hp : p.BitmapAgrees) (h : p.parse (b ++ beyond) b.length = .ok (verdict, q)) :
    q.BitmapAgrees ↔ (Op.parse b beyond).BeyondBitmap := by
  rcases parse_leaves h with ⟨hnone, hoptions, hbitmap⟩ | ⟨os, hos, hlongest, hoptions, hbitmap⟩
  · rw [BitmapAgrees, hoptions, hbitmap]
    exact ⟨fun _ os hos => absurd hos (hnone os), fun _ => hp⟩
  · have hzero : PacketOption.default.number.toNat = 0 := rfl
    rw [BitmapAgrees, hoptions, hbitmap]
    simp only [isOptionSet_zero, Bool.false_eq_true, false_iff, number_mem_collect, hzero,
      Nat.zero_add]
    constructor
    · intro hagrees os' hos' hne
      by_contra hlow
      have hbyte : (UInt8.ofNat ((os'.map Item.delta).sum % 65536)).toNat =
          (os'.map Item.delta).sum % 65536 := by
        rw [UInt8.toNat_ofNat']
        omega
      exact hagrees (UInt8.ofNat ((os'.map Item.delta).sum % 65536)) (by omega)
        ⟨os', hne, hlongest os' hos', hbyte.symm⟩
    · rintro hbeyond n hn ⟨os', hne, hpre, hsum⟩
      have := hbeyond os' (hos.first hpre) hne
      omega

/-- **An addition and the bitmap**: the option and its bit are added together. -/
theorem addOption_bitmapAgrees {std : StdSort} {p p' : Packet} {number : Nat} {value : List UInt8}
    (hp : p.BitmapAgrees) (h : p.addOption std number value = .ok p') : p'.BitmapAgrees := by
  obtain ⟨hnumber, hlength, hextends⟩ := addOption_extends h
  have hlegal : (⟨number, value⟩ : Addition).Legal := ⟨hnumber, hlength⟩
  have hadded := Except.ok.inj ((addOption_legal std p hlegal).symm.trans h)
  have hset : p'.optionBitmap = setOptionBitmap p.optionBitmap (UInt8.ofNat number) := by
    rw [← hadded]
  rw [optionMaxNumber, size1Number] at hnumber
  have hbit : (UInt8.ofNat number).toNat = number := by
    rw [UInt8.toNat_ofNat']
    omega
  have hstored : (UInt16.ofNat number).toNat = number := by
    rw [UInt16.toNat_ofNat']
    omega
  intro n hn
  rw [hset, isOptionSet_setOptionBitmap _ (by omega) hn, hp n hn, hbit]
  simp only [hextends.perm.mem_iff, List.mem_append, List.mem_singleton, or_and_right,
    exists_or, exists_eq_left, hstored]

/-- **One operation and the bitmap**: only parsed options with numbers below 64 break it. -/
theorem step_bitmapAgrees_iff {std : StdSort} {p p' : Packet} {op : Op} (hp : p.BitmapAgrees)
    (h : p.step std op = .ok p') : p'.BitmapAgrees ↔ op.BeyondBitmap := by
  cases op with
  | parse datagram beyond =>
    obtain ⟨⟨verdict, q⟩, hparse, rfl⟩ := map_eq_ok h
    exact parse_bitmapAgrees_iff hp hparse
  | addOption number value => exact iff_of_true (addOption_bitmapAgrees hp h) trivial
  | cleanOptions =>
    cases h
    exact iff_of_true (bitmapAgrees_of_nil rfl rfl) trivial
  | findOptions number =>
    obtain ⟨⟨found, q⟩, hfind, rfl⟩ := map_eq_ok h
    rw [(findOptions_eq_ok.mp hfind).2]
    refine iff_of_true (fun n hn => ?_) trivial
    simp only [StdSort.mem_sort]
    exact hp n hn
  | makeRequest =>
    obtain ⟨hoptions, hbitmap⟩ := makeRequest_keeps h
    refine iff_of_true ?_ trivial
    rw [BitmapAgrees, hoptions, hbitmap]
    exact hp
  | prepareAnswer =>
    cases h
    exact iff_of_true hp trivial
  | clearInstance =>
    cases h
    exact iff_of_true hp trivial

/-- **The bitmap agrees with the options** in every state of a run exactly when no datagram that is
parsed in it has an option with a number below 64. -/
theorem run_bitmap_iff (std : StdSort) {ops : List Op} {p : Packet}
    (h : Packet.fresh.run std ops = .ok p) :
    (∀ n q, Packet.fresh.run std (ops.take n) = .ok q → q.BitmapAgrees) ↔
      ∀ op ∈ ops, op.BeyondBitmap :=
  run_always_iff (fun _ _ _ hs hstep => step_bitmapAgrees_iff hs hstep)
    (bitmapAgrees_of_nil rfl rfl) h

/-- Adding an option and cleaning the options. -/
theorem run_bitmap_iff_sample :
    ∃ p, Packet.fresh.run .insertion [.addOption 11 [0x61], .cleanOptions] = .ok p ∧
      ((∀ n q, Packet.fresh.run .insertion ([Op.addOption 11 [0x61], .cleanOptions].take n) = .ok q →
        q.BitmapAgrees) ↔ ∀ op ∈ [Op.addOption 11 [0x61], .cleanOptions], op.BeyondBitmap) := by
  have hrun : (Packet.fresh.run .insertion [.addOption 11 [0x61], .cleanOptions]).map
      (fun p => p.options.length) = .ok 0 := by decide
  obtain ⟨p, hp, -⟩ := map_eq_ok hrun
  exact ⟨p, hp, run_bitmap_iff .insertion hp⟩

/-- A Uri-Path option that has been parsed is not reported. -/
theorem not_bitmapAgrees_parsed :
    ∃ p, Packet.fresh.run .insertion
        [.parse [0x40, 0x01, 0x00, 0x01, 0xB1, 0x61, 0x00] []] = .ok p ∧ ¬p.BitmapAgrees := by
  have hrun : (Packet.fresh.run .insertion
      [.parse [0x40, 0x01, 0x00, 0x01, 0xB1, 0x61, 0x00] []]).map
        (fun p => (p.options, isOptionSet p.optionBitmap 11)) =
      .ok ([⟨0xB1, 11, [0, 0x61]⟩], false) := by decide
  obtain ⟨p, hp, hseen⟩ := map_eq_ok hrun
  obtain ⟨hoptions, hbit⟩ := Prod.mk.inj hseen
  refine ⟨p, hp, fun hagrees => ?_⟩
  have hmem : (⟨0xB1, 11, [0, 0x61]⟩ : PacketOption) ∈ p.options := by
    rw [hoptions]
    exact List.mem_singleton.mpr rfl
  have hset := (hagrees 11 (by decide)).mpr ⟨_, hmem, rfl⟩
  rw [hbit] at hset
  cases hset

end Packet

end LibCoap
