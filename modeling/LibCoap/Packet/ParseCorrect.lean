import LibCoap.Packet.Parse
import LibCoap.Wire.MessageGrammar

/-! # What the parser does with a datagram

The parser against the grammar of option sequences. The source reads a dialect of its own
(`sourceDialect`: marker `0x00`, extension bytes with the low byte first, 16-bit wrap-around). A
datagram with a well-formed fixed part is a sequence of options of that dialect followed by a rest at
which no option begins; what `parse` does is decided by that rest alone: a marker byte, nothing, a
cut extension field, or a malformed option. One theorem for each of these says what happens, for
every memory behind the datagram. -/

namespace LibCoap

open Machine Wire

/-- The dialect that `parse_options` reads. -/
def sourceDialect : Dialect where
  marker := payloadMarker
  wide x y := (wideExtension x y).toNat

/-! ## Two bytes as one number -/

/-- Two bytes joined with `|` and a shift by eight. -/
theorem toNat_join (low high : UInt8) :
    (low.toUInt16 ||| (high.toUInt16 <<< 8)).toNat = 256 * high.toNat + low.toNat := by
  have hlow := low.toNat_lt
  have hhigh := high.toNat_lt
  have hshift : (high.toUInt16 <<< 8).toNat = 2 ^ 8 * high.toNat := by
    rw [UInt16.toNat_shiftLeft, UInt8.toNat_toUInt16, Nat.shiftLeft_eq]
    simp only [UInt16.reduceToNat, Nat.reduceMod, Nat.reducePow]
    omega
  rw [UInt16.toNat_or, hshift, UInt8.toNat_toUInt16, Nat.or_comm,
    ← Nat.two_pow_add_eq_or_of_lt (by omega)]

/-- The value of a two-byte extension: low byte first, and reduced to 16 bits. -/
theorem toNat_wideExtension (x y : UInt8) :
    (wideExtension x y).toNat = (256 * y.toNat + x.toNat + 269) % 65536 := by
  rw [wideExtension, isLittleEndianByteOrder_eq, if_pos rfl, UInt16.toNat_add, toNat_join]
  rfl

/-- A quantity of the source's dialect fits its 16-bit variable. -/
theorem Wire.Extended.lt_of_source {n v : Nat} {es : List UInt8}
    (h : Extended sourceDialect n es v) : v < 65536 := by
  cases h with
  | short small => omega
  | byte x => have := x.toNat_lt; omega
  | wide x y => exact (wideExtension x y).toNat_lt

/-! ## The extension fields -/

/-- `option_parser` reads an extension field that lies inside the datagram. -/
theorem optionParser_extended {n v : Nat} {es : List UInt8} (h : Extended sourceDialect n es v)
    (pre r : List UInt8) {i : Nat} (length : Nat) (hi : i + 1 = pre.length)
    (hlength : i + es.length < length) :
    optionParser (pre ++ (es ++ r)) length n (UInt16.ofNat n) i =
      .ok (true, UInt16.ofNat v, i + es.length) := by
  cases h with
  | short small =>
    have h₁ : n ≠ minusThirteen := by rw [minusThirteen]; omega
    have h₂ : n ≠ minusTwoHundredSixtyNine := by rw [minusTwoHundredSixtyNine]; omega
    have h₃ : n ≠ reservedForFuture := by rw [reservedForFuture]; omega
    simp [optionParser, h₁, h₂, h₃]
  | byte x =>
    have hread := readAt_append pre r x hi
    have hroom : ¬i + 1 > length := by simp only [List.length_singleton] at hlength; omega
    simp [optionParser, minusThirteen, minusThirteenOptValue, hroom, hread]
  | wide x y =>
    -- the second byte is read behind the first, which becomes part of what has been read
    have hread := readAt_append pre (y :: r) x hi
    have hread' := readAt_append (pre ++ [x]) r y (i := i + 2) (by simp [← hi])
    have hroom : ¬i + 2 > length := by
      simp only [List.length_cons, List.length_nil] at hlength; omega
    simp only [List.append_assoc, List.singleton_append] at hread'
    simp [optionParser, minusThirteen, minusTwoHundredSixtyNine, hroom, hread, hread',
      sourceDialect]

/-- Where the datagram ends one byte before the end of the extension field, `option_parser` reads
the byte behind the datagram. -/
theorem optionParser_missing {n v : Nat} {es : List UInt8} {x : UInt8}
    (h : Extended sourceDialect n (es ++ [x]) v) (pre beyond : List UInt8) {i : Nat} (length : Nat)
    (hi : i + 1 = pre.length) (hlength : length = i + es.length + 1) (modifying : UInt16) :
    (beyond = [] → optionParser (pre ++ (es ++ beyond)) length n modifying i = .error .outOfRange) ∧
      (beyond ≠ [] →
        ∃ w, optionParser (pre ++ (es ++ beyond)) length n modifying i = .ok (true, w, length)) := by
  generalize hes : es ++ [x] = field at h
  cases h with
  | short small => simp at hes
  | byte y =>
    obtain ⟨rfl, -⟩ : es = [] ∧ x = y := by simpa [List.append_eq_singleton_iff] using hes
    obtain rfl : length = i + 1 := by simpa using hlength
    cases beyond with
    | nil =>
      have hread : readAt pre (i + 1) = .error .outOfRange := readAt_of_length_le (by omega)
      exact ⟨fun _ => by simp [optionParser, minusThirteen, hread], fun h => absurd rfl h⟩
    | cons z zs =>
      have hread := readAt_append pre zs z hi
      exact ⟨nofun, fun _ => ⟨_, by simp [optionParser, minusThirteen, hread]; rfl⟩⟩
  | wide y z =>
    obtain rfl : es = [y] := by
      have hsplit : es ++ [x] = [y] ++ [z] := hes
      exact (List.append_inj' hsplit rfl).1
    obtain rfl : length = i + 2 := by simpa using hlength
    have hread := readAt_append pre beyond y hi
    cases beyond with
    | nil =>
      have hread' : readAt (pre ++ [y]) (i + 2) = .error .outOfRange :=
        readAt_of_length_le (by simp [← hi])
      exact ⟨fun _ => by
        simp [optionParser, minusThirteen, minusTwoHundredSixtyNine, hread, hread'],
        fun h => absurd rfl h⟩
    | cons w ws =>
      have hread' := readAt_append (pre ++ [y]) ws w (i := i + 2) (by simp [← hi])
      simp only [List.append_assoc, List.singleton_append] at hread'
      exact ⟨nofun, fun _ => ⟨_, by
        simp [optionParser, minusThirteen, minusTwoHundredSixtyNine, hread, hread']; rfl⟩⟩

/-- Where neither holds, `option_parser` refuses the nibble without reading. -/
theorem optionParser_refused {n : Nat} {es : List UInt8}
    (h : n = 15 ∨ n = 14 ∧ es = []) (buffer : List UInt8) {i : Nat} (length : Nat)
    (hlength : length = i + es.length + 1) (modifying : UInt16) :
    optionParser buffer length n modifying i = .ok (false, modifying, i) := by
  rcases h with rfl | ⟨rfl, rfl⟩
  · simp [optionParser, minusThirteen, minusTwoHundredSixtyNine, reservedForFuture]
  · obtain rfl : length = i + 1 := by simpa using hlength
    simp [optionParser, minusThirteen, minusTwoHundredSixtyNine]

/-- At the end of the datagram `option_parser` reads nothing: a nibble below 13 is taken as it is and
every other one is refused. -/
theorem optionParser_at_end {n : Nat} (hn : n < 16) (buffer : List UInt8) (length : Nat)
    (modifying : UInt16) :
    optionParser buffer length n modifying length = .ok (decide (n < 13), modifying, length) := by
  unfold optionParser minusThirteen minusTwoHundredSixtyNine reservedForFuture
  by_cases h₁ : n = 13
  · simp [h₁]
  · by_cases h₂ : n = 14
    · simp [h₂]
    · by_cases h₃ : n = 15
      · simp [h₃]
      · have hsmall : n < 13 := by omega
        simp [h₁, h₂, h₃, hsmall]

/-- What can stand behind a nibble: a whole extension field, one that lacks its last byte, or
nothing that `option_parser` takes. -/
theorem extension_cases (D : Dialect) {n : Nat} (hn : n < 16) (es : List UInt8) :
    (∃ ds r v, es = ds ++ r ∧ Extended D n ds v) ∨ (∃ x v, Extended D n (es ++ [x]) v) ∨
      (n = 15 ∨ n = 14 ∧ es = []) := by
  by_cases hsmall : n < 13
  · exact .inl ⟨[], es, n, rfl, .short hsmall⟩
  obtain rfl | rfl | rfl : n = 13 ∨ n = 14 ∨ n = 15 := by omega
  · cases es with
    | nil => exact .inr (.inl ⟨0, _, .byte 0⟩)
    | cons x r => exact .inl ⟨[x], r, _, rfl, .byte x⟩
  · match es with
    | [] => exact .inr (.inr (.inr ⟨rfl, rfl⟩))
    | [x] => exact .inr (.inl ⟨0, _, .wide x 0⟩)
    | x :: y :: r => exact .inl ⟨[x, y], r, _, rfl, .wide x y⟩
  · exact .inr (.inr (.inl rfl))

/-! ## One option -/

/-- The options that a sequence is stored as: running 16-bit numbers, and the bytes already in the
local `opt` (`held`) in front of the first value. -/
def collect : List UInt8 → UInt16 → List Item → List PacketOption
  | _, _, [] => []
  | held, number, o :: os =>
    ⟨o.head, number + UInt16.ofNat o.delta, held ++ o.value⟩ ::
      collect [] (number + UInt16.ofNat o.delta) os

/-- Every appended option stands in the sequence, with its number; the value that is held before the
first one may stand in front of its own. -/
theorem mem_collect {os : List Item} {held : List UInt8} {number : UInt16}
    (hsum : number.toNat + (os.map Item.delta).sum ≤ 65535) {opt : PacketOption}
    (h : opt ∈ collect held number os) :
    ∃ value, (opt.number.toNat, value) ∈ numbered number.toNat os ∧
      (opt.value = value ∨ opt.value = held ++ value) := by
  induction os generalizing held number with
  | nil => cases h
  | cons o os ih =>
    rw [List.map_cons, List.sum_cons] at hsum
    have hadd : (number + UInt16.ofNat o.delta).toNat = number.toNat + o.delta := by
      rw [UInt16.toNat_add, UInt16.toNat_ofNat']
      omega
    rw [collect, List.mem_cons] at h
    rcases h with rfl | h
    · exact ⟨o.value, by simp [numbered, hadd], .inr rfl⟩
    · obtain ⟨value, hmem, hvalue⟩ := ih (by omega) h
      rw [hadd] at hmem
      exact ⟨value, List.mem_cons_of_mem _ hmem, .inl (by simpa using hvalue)⟩

/-- A whole option inside the datagram is appended. -/
theorem parseOption_encodes {o : Item} {bs : List UInt8} (h : Encodes sourceDialect o bs)
    (pre r : List UInt8) {c : OptionCursor} (length : Nat) (hi : c.i = pre.length)
    (hlength : pre.length + bs.length ≤ length) :
    parseOption (pre ++ (bs ++ r)) length o.head c = .ok (.next {
      i := c.i + bs.length
      value := []
      optNumber := c.optNumber + UInt16.ofNat o.delta
      options := c.options ++
        [⟨o.head, c.optNumber + UInt16.ofNat o.delta, c.value ++ o.value⟩] }) := by
  obtain @⟨head, ds, ls, value, delta, -, hd, hl⟩ := h
  simp only [List.length_cons, List.length_append] at hlength
  have hdelta := optionParser_extended hd (pre ++ [head]) (ls ++ (value ++ r)) (i := c.i)
    length (by simp [hi]) (by omega)
  have hlen := optionParser_extended hl (pre ++ head :: ds) (value ++ r) (i := c.i + ds.length)
    length (by simp [hi]; omega) (by omega)
  have hvalue : (UInt16.ofNat value.length).toNat = value.length := by
    rw [UInt16.toNat_ofNat', Nat.mod_eq_of_lt hl.lt_of_source]
  have hread := readRange_append (pre ++ head :: (ds ++ ls)) value r
    (i := c.i + ds.length + ls.length + 1) (n := value.length) (by simp [hi]; omega) rfl
  simp only [List.append_assoc, List.cons_append, List.nil_append] at hdelta hlen hread ⊢
  -- the option lies inside the datagram, so the check of its length passes
  have hfit : ¬length < c.i + ds.length + ls.length + 1 + value.length := by omega
  simp only [parseOption, hdelta, hlen, hvalue, hread, ok_bind, pure_eq_ok, hfit, gt_iff_lt,
    Bool.not_true, Bool.false_eq_true, if_false, PacketOption.clear, List.length_cons,
    List.length_append]
  simp only [Except.ok.injEq, Iteration.next.injEq, OptionCursor.mk.injEq, and_true]
  omega

/-- Where no option begins, nothing is cut and no marker stands, the iteration ends in a `false`
verdict. -/
theorem parseOption_stops {head : UInt8} {es : List UInt8}
    (hstop : Stops sourceDialect (head :: es)) (hcut : ¬Cut sourceDialect (head :: es))
    (hmark : head ≠ payloadMarker) (pre beyond : List UInt8) {c : OptionCursor} {length : Nat}
    (hi : c.i = pre.length) (hlength : length = pre.length + es.length + 1) :
    ∃ e, parseOption (pre ++ head :: (es ++ beyond)) length head c = .ok (.rejected e) := by
  have hhead := head.toNat_lt
  rcases extension_cases sourceDialect (n := head.toNat / 16) (by omega) es with
    ⟨ds, r, delta, rfl, hd⟩ | ⟨x, delta, hd⟩ | hd
  · rw [List.length_append] at hlength
    have hdelta := optionParser_extended hd (pre ++ [head]) (r ++ beyond) (i := c.i)
      length (by simp [hi]) (by omega)
    rcases extension_cases sourceDialect (n := head.toNat % 16) (by omega) r with
      ⟨ls, r', len, rfl, hl⟩ | ⟨x, len, hl⟩ | hl
    · -- both fields are whole, so the value must be too long
      rw [List.length_append] at hlength
      have hlen := optionParser_extended hl (pre ++ head :: ds) (r' ++ beyond)
        (i := c.i + ds.length) length (by simp [hi]; omega) (by omega)
      have hlong : r'.length < len := by
        by_contra hfit
        have htake : (r'.take len).length = len := by rw [List.length_take]; omega
        refine hstop ⟨head, delta, r'.take len⟩ _ (r'.drop len)
          (.intro hmark hd (htake.symm ▸ hl)) ?_
        simp
      have hvalue : (UInt16.ofNat len).toNat = len := by
        rw [UInt16.toNat_ofNat', Nat.mod_eq_of_lt hl.lt_of_source]
      have hover : length < c.i + ds.length + ls.length + 1 + len := by omega
      refine ⟨.wrongOptionLength, ?_⟩
      simp only [List.append_assoc, List.cons_append, List.nil_append] at hdelta hlen ⊢
      simp [parseOption, hdelta, hlen, hvalue, hover]
    · exact absurd (.length hmark hd hl) hcut
    · have hlen := optionParser_refused hl (pre ++ head :: (ds ++ (r ++ beyond)))
        (i := c.i + ds.length) length (by omega) (UInt16.ofNat (head.toNat % 16))
      refine ⟨.wrongOptionLength, ?_⟩
      simp only [List.append_assoc, List.cons_append, List.nil_append] at hdelta ⊢
      simp [parseOption, hdelta, hlen]
  · exact absurd (.delta hmark hd) hcut
  · have hdelta := optionParser_refused hd (pre ++ head :: (es ++ beyond)) (i := c.i)
      length (by omega) (UInt16.ofNat (head.toNat / 16))
    exact ⟨.wrongOptionDelta, by simp [parseOption, hdelta]⟩

/-- A cut extension field makes the iteration read the byte behind the datagram; whatever stands
there, the verdict is `false`. -/
theorem parseOption_cut {head : UInt8} {es : List UInt8} (hcut : Cut sourceDialect (head :: es))
    (pre beyond : List UInt8) {c : OptionCursor} {length : Nat} (hi : c.i = pre.length)
    (hlength : length = pre.length + es.length + 1) :
    (beyond = [] →
      parseOption (pre ++ head :: (es ++ beyond)) length head c = .error .outOfRange) ∧
      (beyond ≠ [] →
        ∃ e, parseOption (pre ++ head :: (es ++ beyond)) length head c = .ok (.rejected e)) := by
  have hhead := head.toNat_lt
  generalize ht : head :: es = t at hcut
  cases hcut with
  | delta notMarker missing =>
    obtain ⟨rfl, rfl⟩ := List.cons.inj ht
    have hdelta := optionParser_missing missing (pre ++ [head]) beyond (i := c.i)
      length (by simp [hi]) (by omega) (UInt16.ofNat (head.toNat / 16))
    simp only [List.append_assoc, List.cons_append, List.nil_append] at hdelta
    refine ⟨fun hnil => by simp [parseOption, hdelta.1 hnil], fun hne => ?_⟩
    obtain ⟨w, hdelta⟩ := hdelta.2 hne
    have hend := optionParser_at_end (n := head.toNat % 16) (by omega)
      (pre ++ head :: (es ++ beyond)) length (UInt16.ofNat (head.toNat % 16))
    refine ⟨.wrongOptionLength, ?_⟩
    -- the length nibble is taken at the end of the datagram: no value fits there any more
    by_cases hsmall : head.toNat % 16 < 13
    · have hover (k : Nat) : length < length + 1 + k := by omega
      simp only [parseOption, hdelta, hend, hsmall, hover, ok_bind, pure_eq_ok, gt_iff_lt,
        decide_true, Bool.not_true, Bool.false_eq_true, if_true, if_false]
    · simp [parseOption, hdelta, hend, hsmall]
  | @length _ _ ds ls delta len notMarker deltaField missing =>
    obtain ⟨rfl, rfl⟩ := List.cons.inj ht
    rw [List.length_append] at hlength
    have hdelta := optionParser_extended deltaField (pre ++ [head]) (ls ++ beyond) (i := c.i)
      length (by simp [hi]) (by omega)
    have hlen := optionParser_missing missing (pre ++ head :: ds) beyond
      (i := c.i + ds.length) length (by simp [hi]; omega) (by omega)
      (UInt16.ofNat (head.toNat % 16))
    simp only [List.append_assoc, List.cons_append, List.nil_append] at hdelta hlen ⊢
    refine ⟨fun hnil => by simp [parseOption, hdelta, hlen.1 hnil], fun hne => ?_⟩
    obtain ⟨w, hlen⟩ := hlen.2 hne
    refine ⟨.wrongOptionLength, ?_⟩
    have hover : length < length + 1 + w.toNat := by omega
    simp [parseOption, hdelta, hlen, hover]

/-! ## The option loop -/

/-- **The loop runs through a sequence of options**, one iteration for each. -/
theorem parseOptionsLoop_sequence {os : List Item} {bs : List UInt8}
    (h : Sequence sourceDialect os bs) (pre r : List UInt8) {c : OptionCursor} (length : Nat)
    (hi : c.i = pre.length) (hlength : pre.length + bs.length ≤ length) :
    ∃ c' : OptionCursor, c'.i = pre.length + bs.length ∧
      c'.options = c.options ++ collect c.value c.optNumber os ∧
      ∀ fuel, parseOptionsLoop (pre ++ (bs ++ r)) length (os.length + fuel) c =
        parseOptionsLoop (pre ++ (bs ++ r)) length fuel c' := by
  induction h generalizing pre c with
  | nil => exact ⟨c, by simp [hi], by simp [collect], fun fuel => by simp⟩
  | @cons o os bs cs first rest ih =>
    rw [List.length_append] at hlength
    -- one iteration for the first option, and the induction from the cursor behind it
    have hstep := parseOption_encodes first pre (cs ++ r) length hi (by omega)
    obtain ⟨c', hi', hoptions, hloop⟩ := ih (pre ++ bs)
      (c := ⟨c.i + bs.length, [], c.optNumber + UInt16.ofNat o.delta, c.options ++
        [⟨o.head, c.optNumber + UInt16.ofNat o.delta, c.value ++ o.value⟩]⟩)
      (by simp [hi]) (by rw [List.length_append]; omega)
    refine ⟨c', by simp only [hi', List.length_append]; omega, by simp [hoptions, collect], ?_⟩
    intro fuel
    simp only [List.append_assoc] at hloop ⊢
    obtain @⟨head, ds, ls, value, delta, notMarker, -, -⟩ := first
    have hread := readAt_append pre (ds ++ (ls ++ (value ++ (cs ++ r)))) head hi
    have hin : c.i < length := by simp only [List.length_cons] at hlength; omega
    have hmark : head ≠ payloadMarker := notMarker
    simp only [List.append_assoc, List.cons_append] at hstep hloop ⊢
    rw [← hloop fuel, List.length_cons, Nat.add_right_comm, parseOptionsLoop, hread]
    simp [hmark, hin, hstep]

/-! ## The whole parser -/

/-- The loop stops at the marker. -/
theorem parseOptionsLoop_marker (pre r : List UInt8) {c : OptionCursor} {length : Nat}
    (hi : c.i = pre.length) (fuel : Nat) :
    parseOptionsLoop (pre ++ payloadMarker :: r) length (fuel + 1) c = .ok (none, c) := by
  rw [parseOptionsLoop, readAt_append pre r payloadMarker hi]
  simp

/-- The loop looks at the byte behind the datagram before it stops there. -/
theorem parseOptionsLoop_end (pre beyond : List UInt8) {c : OptionCursor} {length : Nat}
    (hi : c.i = pre.length) (hlength : length = pre.length) (fuel : Nat) :
    parseOptionsLoop (pre ++ beyond) length (fuel + 1) c =
      if beyond = [] then .error .outOfRange else .ok (none, c) := by
  cases beyond with
  | nil =>
    rw [parseOptionsLoop, readAt_of_length_le (by simp [hi])]
    rfl
  | cons x xs =>
    rw [parseOptionsLoop, readAt_append pre xs x hi]
    simp [hi, hlength]

/-- An iteration that ends in a `false` verdict, or faults, ends the loop. -/
theorem parseOptionsLoop_step {head : UInt8} (pre r : List UInt8) {c : OptionCursor}
    (length : Nat) (hmark : head ≠ payloadMarker) (hi : c.i = pre.length)
    (hlength : pre.length < length) (fuel : Nat) :
    parseOptionsLoop (pre ++ head :: r) length (fuel + 1) c =
      parseOption (pre ++ head :: r) length head c >>= fun it =>
        match it with
        | .next c' => parseOptionsLoop (pre ++ head :: r) length fuel c'
        | .rejected e => .ok (some e, c) := by
  rw [parseOptionsLoop, readAt_append pre r head hi]
  have hgoes : head ≠ payloadMarker ∧ c.i < length := ⟨hmark, by omega⟩
  rw [ok_bind, if_pos hgoes]
  cases parseOption (pre ++ head :: r) length head c with
  | error e => rfl
  | ok it => cases it <;> rfl

namespace Packet

/-- The packet after the fixed part of a datagram has been read. -/
def addressed (p : Packet) (f : Frame) : Packet :=
  { p with
    headerInfo := Header.ofByte f.head
    code := f.code
    messageId := f.idLow.toUInt16 ||| (f.idHigh.toUInt16 <<< 8)
    token := Token.zero.overwrite f.token }

/-- The token length of a frame, as the header holds it. -/
theorem tokenLength_ofByte (f : Frame) : (Header.ofByte f.head).tokenLength.val = f.tokenLength := by
  simp only [Header.ofByte, Fin.val_ofNat, Frame.tokenLength]

/-- The version of a frame, as the header holds it. -/
theorem version_ofByte (f : Frame) : (Header.ofByte f.head).version.val = f.version := by
  have := f.head.toNat_lt
  simp only [Header.ofByte, Fin.val_ofNat, Frame.version]
  omega

/-- Overwriting a token with nothing changes nothing. -/
@[simp] theorem overwrite_nil (t : Token) : t.overwrite [] = t := by
  ext i hi
  simp [Token.overwrite]

/-- The packet after the first four bytes of a datagram have been read. -/
def headed (p : Packet) (f : Frame) : Packet :=
  { p with
    headerInfo := Header.ofByte f.head
    code := f.code
    messageId := f.idLow.toUInt16 ||| (f.idHigh.toUInt16 <<< 8) }

/-- The first four bytes are read, and only their version is checked. -/
theorem parseHeader_bytes (f : Frame) (p : Packet) (beyond : List UInt8) :
    p.parseHeader (f.bytes ++ beyond) f.bytes.length =
      if f.version = 1 then .ok (true, p.headed f)
      else .ok (false, { p with headerInfo := Header.ofByte f.head, error := .protocolVersion }) := by
  have hlong : ¬f.bytes.length < packetMinLength := by
    simp [Frame.bytes, packetMinLength, packetHeaderSize]
  have hversion : coapVersion = (Header.ofByte f.head).version ↔ f.version = 1 := by
    rw [← version_ofByte, Fin.ext_iff, eq_comm]
    rfl
  rw [parseHeader, if_neg hlong]
  by_cases h : f.version = 1
  · simp [Frame.bytes, readAt, headed, hversion, h]
  · simp [Frame.bytes, readAt, hversion, h]

/-- The token is read when its length is announced as at most 8 and it is all there. -/
theorem parseToken_headed {f : Frame} (htoken : f.token.length = f.tokenLength)
    (hmax : f.tokenLength ≤ 8) (p : Packet) (beyond : List UInt8) :
    (p.headed f).parseToken (f.bytes ++ beyond) f.bytes.length = .ok (true, p.addressed f) := by
  have hlen : (p.headed f).headerInfo.tokenLength.val = f.tokenLength := tokenLength_ofByte f
  rw [parseToken]
  simp only [hlen]
  by_cases hzero : 0 = f.tokenLength
  · rw [← hzero, List.length_eq_zero_iff] at htoken
    simp [← hzero, addressed, headed, htoken]
  · have hroom : ¬(f.tokenLength > tokenMaxLength ∨
        f.bytes.length < packetHeaderSize + f.tokenLength) := by
      simp only [Frame.bytes, List.length_cons, List.length_append, tokenMaxLength,
        packetHeaderSize]
      omega
    have hread := readRange_append [f.head, f.code, f.idHigh, f.idLow] f.token
      (f.body ++ beyond) (i := packetHeaderSize) rfl htoken.symm
    have hbytes : [f.head, f.code, f.idHigh, f.idLow] ++ (f.token ++ (f.body ++ beyond)) =
        f.bytes ++ beyond := by simp [Frame.bytes]
    rw [hbytes] at hread
    simp only [hzero, hroom, hread, if_false, ok_bind, pure_eq_ok, addressed, headed]

/-- **A well-formed fixed part is read.** -/
theorem parse_fixed {f : Frame} (hf : f.Valid) (p : Packet) (beyond : List UInt8) :
    andThen (p.parseHeader (f.bytes ++ beyond) f.bytes.length)
      (·.parseToken (f.bytes ++ beyond) f.bytes.length) = .ok (true, p.addressed f) := by
  rw [parseHeader_bytes, if_pos hf.version, andThen_true]
  exact parseToken_headed hf.tokenLength hf.tokenMax p beyond

/-- A token that is announced as longer than 8 bytes, or that is not all there, is refused. -/
theorem parseToken_refused {f : Frame} (htoken : f.token = [])
    (hfault : f.tokenLength > 8 ∨ f.body.length < f.tokenLength) (p : Packet)
    (beyond : List UInt8) :
    ∃ q, (p.headed f).parseToken (f.bytes ++ beyond) f.bytes.length = .ok (false, q) := by
  have hlen : (p.headed f).headerInfo.tokenLength.val = f.tokenLength := tokenLength_ofByte f
  have hzero : ¬0 = f.tokenLength := by omega
  have hcond : f.tokenLength > tokenMaxLength ∨
      f.bytes.length < packetHeaderSize + f.tokenLength := by
    simp only [Frame.bytes, htoken, List.length_cons, List.nil_append, tokenMaxLength,
      packetHeaderSize]
    omega
  rw [parseToken]
  simp only [hlen, if_neg hzero, if_pos hcond]
  exact ⟨_, rfl⟩

/-- A malformed fixed part is refused by the first two functions. -/
theorem parseFixed_malformed {b : List UInt8} (hb : b ≠ [])
    (hmal : ¬∃ f : Frame, f.Valid ∧ b = f.bytes) (p : Packet) (beyond : List UInt8) :
    ∃ q, andThen (p.parseHeader (b ++ beyond) b.length)
      (·.parseToken (b ++ beyond) b.length) = .ok (false, q) := by
  match b with
  | head :: code :: hi :: lo :: rest =>
    let f : Frame := ⟨head, code, hi, lo, [], rest⟩
    show ∃ q, andThen (p.parseHeader (f.bytes ++ beyond) f.bytes.length)
      (·.parseToken (f.bytes ++ beyond) f.bytes.length) = .ok (false, q)
    rw [parseHeader_bytes]
    by_cases hversion : f.version = 1
    · rw [if_pos hversion, andThen_true]
      -- the version is right, so the token must be at fault
      refine parseToken_refused rfl ?_ p beyond
      by_contra hok
      refine hmal ⟨⟨head, code, hi, lo, rest.take f.tokenLength, rest.drop f.tokenLength⟩,
        ⟨hversion, ?_, ?_⟩, by simp [Frame.bytes]⟩
      · simp only [f, Frame.tokenLength, List.length_take] at hok ⊢; omega
      · simp only [f, Frame.tokenLength] at hok ⊢; omega
    · rw [if_neg hversion, andThen_false]
      exact ⟨_, rfl⟩
  | [] => exact absurd rfl hb
  | [_] | [_, _] | [_, _, _] =>
    simp [parseHeader, packetMinLength, packetHeaderSize]

/-- Where a datagram has no well-formed fixed part, the verdict is `false`. -/
theorem parse_malformed {b : List UInt8} (hb : b ≠ []) (hmal : ¬∃ f : Frame, f.Valid ∧ b = f.bytes)
    (p : Packet) (beyond : List UInt8) :
    ∃ q, p.parseUpToOptions (b ++ beyond) b.length = .ok (false, q) := by
  have hlength : b.length ≠ 0 := by simpa using hb
  obtain ⟨q, hq⟩ := parseFixed_malformed hb hmal p beyond
  exact ⟨q, by rw [parseUpToOptions, assertThat_of_pos hlength, ok_bind, hq, andThen_false]⟩

/-- What `parse_options` makes of the end of its loop. -/
def concluded (p : Packet) (out : Option ErrorCode × OptionCursor) : Bool × Packet :=
  match out.1 with
  | some e => (false, { p with options := out.2.options, error := e })
  | none => (true, { p with options := out.2.options, payloadOffset := out.2.i + 1 })

/-- `parse_options` is its loop. -/
theorem parseOptions_eq (p : Packet) (buffer : List UInt8) (length : Nat) :
    p.parseOptions buffer length =
      parseOptionsLoop buffer length (length + 1)
        ⟨packetHeaderSize + p.headerInfo.tokenLength.val, PacketOption.default.value,
          PacketOption.default.number, []⟩ >>= fun out => .ok (p.cleanOptions.concluded out) := by
  rw [parseOptions]
  simp only [cleanOptions]
  cases parseOptionsLoop buffer length (length + 1) _ with
  | error e => rfl
  | ok out =>
    obtain ⟨stopped, c⟩ := out
    cases stopped <;> rfl

/-- **Parsing comes down to the rest behind the options**: once the fixed part and a sequence of
options have been read, the loop stands at the rest `t`. -/
theorem parseUpToOptions_sequence {f : Frame} (hf : f.Valid) {os : List Item}
    {bs t : List UInt8} (hbody : f.body = bs ++ t) (hos : Sequence sourceDialect os bs)
    (p : Packet) (beyond : List UInt8) :
    ∃ (pre : List UInt8) (c : OptionCursor) (fuel : Nat), f.bytes = pre ++ t ∧ c.i = pre.length ∧
      c.options = collect PacketOption.default.value PacketOption.default.number os ∧
      p.parseUpToOptions (f.bytes ++ beyond) f.bytes.length =
        parseOptionsLoop (pre ++ (t ++ beyond)) f.bytes.length (fuel + 1) c >>=
          fun out => .ok ((p.addressed f).cleanOptions.concluded out) := by
  obtain ⟨fixed, hfixed⟩ : ∃ fixed, fixed = f.head :: f.code :: f.idHigh :: f.idLow :: f.token :=
    ⟨_, rfl⟩
  have hbytes : f.bytes = fixed ++ (bs ++ t) := by simp [Frame.bytes, hbody, hfixed]
  have hoffset : packetHeaderSize + (p.addressed f).headerInfo.tokenLength.val = fixed.length := by
    have := tokenLength_ofByte f
    simp only [addressed, this, hfixed, List.length_cons, hf.tokenLength, packetHeaderSize]
    omega
  have hlength : f.bytes.length = fixed.length + (bs.length + t.length) := by simp [hbytes]
  obtain ⟨c, hi, hoptions, hloop⟩ := parseOptionsLoop_sequence hos fixed (t ++ beyond)
    (c := ⟨fixed.length, PacketOption.default.value, PacketOption.default.number, []⟩)
    f.bytes.length rfl (by omega)
  -- the fuel is enough: every option takes a byte of the datagram
  have hcount := hos.length_le
  have hfuel : f.bytes.length + 1 = os.length + ((f.bytes.length - os.length) + 1) := by omega
  have hnonzero : f.bytes.length ≠ 0 := by simp [Frame.bytes]
  have hmem : f.bytes ++ beyond = fixed ++ (bs ++ (t ++ beyond)) := by simp [hbytes]
  refine ⟨fixed ++ bs, c, f.bytes.length - os.length, by simp [hbytes], by simp [hi],
    by simpa using hoptions, ?_⟩
  rw [parseUpToOptions, assertThat_of_pos hnonzero, ok_bind, parse_fixed hf, andThen, ok_bind]
  simp only [Bool.not_true, Bool.false_eq_true, if_false]
  rw [parseOptions_eq, hoffset, hfuel, hmem, hloop, List.append_assoc]

/-- The packet after the fixed part and the options of a datagram have been read. -/
def received (p : Packet) (f : Frame) (os : List Item) (offset : Nat) : Packet :=
  { (p.addressed f).cleanOptions with
    options := collect PacketOption.default.value PacketOption.default.number os
    payloadOffset := offset }

section Outcome

variable {f : Frame} {os : List Item} {bs t : List UInt8} (hf : f.Valid) (hbody : f.body = bs ++ t)
  (hos : Sequence sourceDialect os bs) (p : Packet) (beyond : List UInt8)

include hf hbody hos

/-- **A marker behind the options**: the payload is what stands behind it. -/
theorem parseUpToOptions_marker {payload : List UInt8} (ht : t = payloadMarker :: payload) :
    p.parseUpToOptions (f.bytes ++ beyond) f.bytes.length =
      .ok (true, p.received f os (f.bytes.length - payload.length)) := by
  obtain ⟨pre, c, fuel, hbytes, hi, hoptions, hparse⟩ :=
    parseUpToOptions_sequence hf hbody hos p beyond
  have hlength : f.bytes.length - payload.length = c.i + 1 := by
    rw [hbytes, hi, ht]
    simp only [List.length_append, List.length_cons]
    omega
  rw [hparse, ht, List.cons_append, parseOptionsLoop_marker pre _ hi, ok_bind]
  simp only [concluded, received, hoptions, hlength]

/-- **Nothing behind the options**: the byte behind the datagram is read, and the payload is said to
begin one position behind it. -/
theorem parseUpToOptions_end (ht : t = []) :
    p.parseUpToOptions (f.bytes ++ beyond) f.bytes.length =
      if beyond = [] then .error .outOfRange
      else .ok (true, p.received f os (f.bytes.length + 1)) := by
  obtain ⟨pre, c, fuel, hbytes, hi, hoptions, hparse⟩ :=
    parseUpToOptions_sequence hf hbody hos p beyond
  rw [ht, List.append_nil] at hbytes
  rw [hparse, ht, List.nil_append, parseOptionsLoop_end pre beyond hi (by rw [hbytes])]
  by_cases hnil : beyond = []
  · simp [hnil]
  · simp [hnil, concluded, received, hoptions, hi, hbytes]

/-- **A cut extension field behind the options**: the byte behind the datagram is read, and the
verdict is `false`. -/
theorem parseUpToOptions_cut (ht : Cut sourceDialect t) :
    (beyond = [] →
      p.parseUpToOptions (f.bytes ++ beyond) f.bytes.length = .error .outOfRange) ∧
      (beyond ≠ [] →
        ∃ q, p.parseUpToOptions (f.bytes ++ beyond) f.bytes.length = .ok (false, q)) := by
  obtain ⟨pre, c, fuel, hbytes, hi, -, hparse⟩ := parseUpToOptions_sequence hf hbody hos p beyond
  obtain ⟨head, es, rfl, hmark⟩ : ∃ head es, t = head :: es ∧ head ≠ payloadMarker := by
    cases ht with
    | delta notMarker missing => exact ⟨_, _, rfl, notMarker⟩
    | length notMarker deltaField missing => exact ⟨_, _, rfl, notMarker⟩
  have hlength : f.bytes.length = pre.length + es.length + 1 := by
    rw [hbytes, List.length_append, List.length_cons]; omega
  have hloop := parseOptionsLoop_step pre (es ++ beyond) f.bytes.length hmark hi
    (by omega) fuel
  rw [hparse, List.cons_append, hloop]
  obtain ⟨hend, hmore⟩ := parseOption_cut ht pre beyond hi hlength
  refine ⟨fun hnil => by rw [hend hnil]; rfl, fun hne => ?_⟩
  obtain ⟨e, h⟩ := hmore hne
  exact ⟨_, by rw [h]; rfl⟩

/-- **Anything else behind the options**: the verdict is `false`. -/
theorem parseUpToOptions_stops (hstop : Stops sourceDialect t) (hcut : ¬Cut sourceDialect t)
    (hnil : t ≠ []) (hmark : ∀ payload, t ≠ payloadMarker :: payload) :
    ∃ q, p.parseUpToOptions (f.bytes ++ beyond) f.bytes.length = .ok (false, q) := by
  obtain ⟨pre, c, fuel, hbytes, hi, -, hparse⟩ := parseUpToOptions_sequence hf hbody hos p beyond
  obtain ⟨head, es, rfl⟩ := List.exists_cons_of_ne_nil hnil
  have hhead : head ≠ payloadMarker := fun h => hmark es (by rw [h])
  have hlength : f.bytes.length = pre.length + es.length + 1 := by
    rw [hbytes, List.length_append, List.length_cons]; omega
  have hloop := parseOptionsLoop_step pre (es ++ beyond) f.bytes.length hhead hi
    (by omega) fuel
  obtain ⟨e, h⟩ := parseOption_stops hstop hcut hhead pre beyond hi hlength
  exact ⟨_, by rw [hparse, List.cons_append, hloop, h]; rfl⟩

end Outcome

end Packet

end LibCoap
