import LibCoap.Blockwise
import LibCoap.Packet.Additions

/-! # What `set_header` leaves in a packet

`set_header` cleans the options and adds the port, the path and the block option. With a path that
`add_option` takes (`LegalPath`) its outcome is known exactly, and nothing of what the packet held
before is left in the options. -/

namespace LibCoap

open Machine

/-- Every segment of the path is within the bound of `add_option`. -/
def Uri.LegalPath (uri : Uri) : Prop :=
  ∀ segment ∈ uri.uri.asString, segment.length ≤ optionMaxLength

/-- The number of the block option is one that `add_option` takes. -/
theorem block2Number_le : block2Number ≤ optionMaxNumber := by decide

namespace Blockwise

/-- The calls of `add_option` for the port and the path. -/
def pathAdditions (port : UInt16) (uri : Uri) : List Addition :=
  ⟨uriPort, portBytes port⟩ :: uri.uri.asString.map (fun segment => ⟨uriPath, segment⟩)

/-- All calls of `add_option` that `set_header` makes. -/
def headerAdditions (blockNumber : Nat) (b : Blockwise) (port : UInt16) (uri : Uri) :
    List Addition :=
  pathAdditions port uri ++ [⟨blockNumber, (b.encoded blockNumber).2.value⟩]

/-- They are the options of the header. -/
theorem map_headerAdditions (blockNumber : Nat) (b : Blockwise) (port : UInt16) (uri : Uri) :
    (headerAdditions blockNumber b port uri).map Addition.option =
      headerOptions blockNumber b port uri := by
  simp only [headerAdditions, pathAdditions, headerOptions, List.map_append, List.map_cons,
    List.map_map, List.cons_append, List.map_nil]
  rfl

/-- The calls for the port and a path within its bounds are legal. -/
theorem pathAdditions_legal {port : UInt16} {uri : Uri} (h : uri.LegalPath) :
    ∀ a ∈ pathAdditions port uri, a.Legal := by
  intro a ha
  rw [pathAdditions, List.mem_cons, List.mem_map] at ha
  rcases ha with rfl | ⟨segment, hsegment, rfl⟩
  · have hport : uriPort ≤ optionMaxNumber := by decide
    exact ⟨hport, by simp [portBytes, optionMaxLength]⟩
  · have hpath : uriPath ≤ optionMaxNumber := by decide
    exact ⟨hpath, h segment hsegment⟩

/-- The call for the block option is legal. -/
theorem blockAddition_legal {blockNumber : Nat} (hnumber : blockNumber ≤ optionMaxNumber)
    (b : Blockwise) : Addition.Legal ⟨blockNumber, (b.encoded blockNumber).2.value⟩ := by
  have hlength : (b.encoded blockNumber).2.value.length ≤ 1 + 3 := length_encodeBlockOption _ _
  refine ⟨hnumber, ?_⟩
  show (b.encoded blockNumber).2.value.length ≤ optionMaxLength
  rw [optionMaxLength]
  omega

variable {std : StdSort} {blockNumber : Nat} {b : Blockwise} {port : UInt16} {uri : Uri}
  {p : Packet}

/-- `set_header` is its additions to the clean packet: those of the port and the path, and that of
the block option once it is encoded. -/
theorem setHeader_eq (hnumber : blockNumber ≤ optionMaxNumber) :
    b.setHeader std blockNumber port uri p =
      (p.cleanOptions.addOptions std (pathAdditions port uri) >>= fun p =>
        if (b.restarted.encoded blockNumber).1 then
          (p.addOption std blockNumber (b.restarted.encoded blockNumber).2.value).map
            fun p => (true, b.restarted, p)
        else .ok (false, b.restarted, p)) := by
  have htoNat : (UInt16.ofNat blockNumber).toNat = blockNumber := by
    rw [optionMaxNumber, size1Number] at hnumber
    rw [UInt16.toNat_ofNat']
    omega
  have hoption := b.restarted.encodeBlockOption_number
    { PacketOption.default with number := UInt16.ofNat blockNumber }
  simp only [setHeader, Packet.addOptions, pathAdditions, List.foldlM_cons, List.foldlM_map,
    bind_assoc, encoded]
  obtain ⟨⟨v, option⟩, hencode⟩ : ∃ r, b.restarted.encodeBlockOption
    { PacketOption.default with number := UInt16.ofNat blockNumber } = r := ⟨_, rfl⟩
  simp only [hencode] at hoption ⊢
  rw [hoption, htoNat]
  cases v with
  | false => rfl
  | true => rfl

/-- **With a legal path and a block that is encoded** the header is set, and the options and their
bitmap do not depend on what the packet held before. -/
theorem setHeader_legal (hnumber : blockNumber ≤ optionMaxNumber) (hpath : uri.LegalPath)
    (hencoded : (b.restarted.encoded blockNumber).1 = true) :
    b.setHeader std blockNumber port uri p = .ok (true, b.restarted, { p with
      options := Packet.appendAll std [] (headerAdditions blockNumber b.restarted port uri)
      optionBitmap :=
        Packet.addBits (0, 0) (headerAdditions blockNumber b.restarted port uri) }) := by
  have hblock := blockAddition_legal hnumber b.restarted
  have hadd (q : Packet) := Packet.addOption_legal std q hblock
  simp only at hadd
  rw [setHeader_eq hnumber, Packet.addOptions_legal std _ (pathAdditions_legal hpath), ok_bind,
    if_pos hencoded, hadd]
  simp only [headerAdditions, Packet.appendAll, Packet.addBits, List.foldl_append, List.foldl_cons,
    List.foldl_nil, Packet.cleanOptions]
  rfl

/-- With a legal path and a block that is not encoded the header is refused; the options of the path
stay behind. -/
theorem setHeader_refused (hnumber : blockNumber ≤ optionMaxNumber) (hpath : uri.LegalPath)
    (hencoded : (b.restarted.encoded blockNumber).1 = false) :
    b.setHeader std blockNumber port uri p = .ok (false, b.restarted, { p with
      options := Packet.appendAll std [] (pathAdditions port uri)
      optionBitmap := Packet.addBits (0, 0) (pathAdditions port uri) }) := by
  rw [setHeader_eq hnumber, Packet.addOptions_legal std _ (pathAdditions_legal hpath), ok_bind,
    hencoded]
  rfl

/-- A segment that is too long fails an assertion. -/
theorem setHeader_illegal (hnumber : blockNumber ≤ optionMaxNumber) (hpath : ¬uri.LegalPath) :
    b.setHeader std blockNumber port uri p = .error .assertion := by
  have hillegal : ¬∀ a ∈ pathAdditions port uri, a.Legal := by
    intro h
    apply hpath
    intro segment hsegment
    have hmem : (⟨uriPath, segment⟩ : Addition) ∈ pathAdditions port uri :=
      List.mem_cons_of_mem _ (List.mem_map_of_mem hsegment)
    exact (h _ hmem).2
  rw [setHeader_eq hnumber, Packet.addOptions_illegal std _ hillegal]
  rfl

/-- **What `set_header` does**: the block state is restarted at block 0 and encoded, and a packet that
is accepted has the header's options in order and is otherwise as it was. -/
theorem setHeader_eq_ok (hnumber : blockNumber ≤ optionMaxNumber) {b' : Blockwise} {p' : Packet}
    {ok : Bool} (h : b.setHeader std blockNumber port uri p = .ok (ok, b', p')) :
    b' = b.restarted ∧ ok = (b.restarted.encoded blockNumber).1 ∧ uri.LegalPath ∧
      { p' with options := p.options, optionBitmap := p.optionBitmap } = p ∧
      (ok = true → p'.options.Perm (headerOptions blockNumber b.restarted port uri) ∧
        p'.options.Pairwise (·.number ≤ ·.number)) := by
  by_cases hpath : uri.LegalPath
  · cases hencoded : (b.restarted.encoded blockNumber).1 with
    | false =>
      rw [setHeader_refused hnumber hpath hencoded] at h
      cases h
      exact ⟨rfl, rfl, hpath, rfl, nofun⟩
    | true =>
      rw [setHeader_legal hnumber hpath hencoded] at h
      cases h
      refine ⟨rfl, rfl, hpath, rfl, fun _ => ⟨?_, ?_⟩⟩
      · rw [← map_headerAdditions]
        exact Packet.appendAll_perm std [] _
      · exact Packet.appendAll_ordered std .nil _
  · rw [setHeader_illegal hnumber hpath] at h
    cases h

end Blockwise

end LibCoap
