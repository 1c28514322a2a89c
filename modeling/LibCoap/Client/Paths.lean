import LibCoap.Blockwise.Header
import LibCoap.Client.Endpoint
import LibCoap.Uri.Splitting

/-! # Which paths can be downloaded

The client names its file by the last string of the path and asks for the strings of the path, and
both read `asString` only. A path whose first segment looks like a number fills `asInteger` instead:
its last string is read in front of an empty vector, and no segment is asked for. -/

namespace LibCoap

open Machine Text

/-- The access `asString[asString.size() - 1]` of the constructor of `uriClientEndpoint`. -/
def Uri.fileName (u : Uri) : Exec (List UInt8) :=
  readAtInt u.uri.asString ((u.uri.asString.length : Int) - 1)

/-- The `URI_PATH` options of a packet, counted. -/
def Packet.pathOptions (p : Packet) : Nat :=
  p.options.countP fun opt => opt.number = UInt16.ofNat uriPath

/-- What the client does with the path `path` that `u` is built from: it is constructed, the file is
named by the last segment, and each header asks for every segment. -/
structure Downloadable (path : List UInt8) (u : Uri) : Prop where
  opens : ∀ conn pdu tvSec error, ∃ e, Endpoint.create path conn pdu tvSec error = .ok e
  names : ∃ name, u.fileName = .ok name ∧ (tokens slash path).getLast? = some name
  block1 : ∀ (std : StdSort) (b : Blockwise) (port : UInt16) (p : Packet), ∃ ok b' p',
    b.block1SetHeader std port u p = .ok (ok, b', p') ∧
      p'.pathOptions = (tokens slash path).length
  block2 : ∀ (std : StdSort) (b : Blockwise) (port : UInt16) (p : Packet), ∃ ok b' p',
    b.block2SetHeader std port u p = .ok (ok, b', p') ∧
      p'.pathOptions = (tokens slash path).length

/-- The constructor of the client makes the access, and nothing else in it can fail. -/
theorem create_returns_iff (path : List UInt8) (conn : Connection) (pdu : Packet) (tvSec : Int)
    (error : ErrorCode) :
    (∃ e, Endpoint.create path conn pdu tvSec error = .ok e) ↔
      ∃ u name, Uri.ofPath path = .ok u ∧ u.fileName = .ok name := by
  constructor
  · rintro ⟨e, he⟩
    obtain ⟨u, hu, he⟩ := bind_eq_ok.mp he
    obtain ⟨name, hname, -⟩ := bind_eq_ok.mp he
    exact ⟨u, name, hu, hname⟩
  · rintro ⟨u, name, hu, hname⟩
    exact ⟨_, bind_eq_ok.mpr ⟨u, hu, bind_eq_ok.mpr ⟨name, hname, rfl⟩⟩⟩

/-- The last string, if there is one. -/
theorem fileName_eq_ok {u : Uri} {name : List UInt8} :
    u.fileName = .ok name ↔ u.uri.asString.getLast? = some name := by
  rw [Uri.fileName, readAtInt]
  by_cases hnone : u.uri.asString = []
  · simp [hnone]
  · have hpos : 0 < u.uri.asString.length := List.length_pos_iff.mpr hnone
    have hindex : ((u.uri.asString.length : Int) - 1).toNat = u.uri.asString.length - 1 := by omega
    rw [if_pos (by omega), hindex, readAt_eq_ok, List.getLast?_eq_getElem?]

/-! ## The path options of a header -/

section Header

variable {std : StdSort} {blockNumber : Nat} {b : Blockwise} {port : UInt16} {u : Uri} {p : Packet}

/-- The options of the port and the path, counted. -/
theorem countP_pathAdditions (port : UInt16) (u : Uri) :
    ((Blockwise.pathAdditions port u).map Addition.option).countP
      (fun opt => opt.number = UInt16.ofNat uriPath) = u.uri.asString.length := by
  have hport : (UInt16.ofNat uriPort = UInt16.ofNat uriPath) = False := by decide
  rw [Blockwise.pathAdditions, List.map_cons, List.map_map, List.countP_cons, List.countP_map]
  simp [Addition.option, Function.comp_def, hport]

/-- **`set_header` with a legal path** leaves one path option for each string of the path, also when
the block is not encoded. -/
theorem setHeader_pathOptions (hnumber : blockNumber ≤ optionMaxNumber)
    (hother : UInt16.ofNat blockNumber ≠ UInt16.ofNat uriPath) (hpath : u.LegalPath) :
    ∃ ok b' p', b.setHeader std blockNumber port u p = .ok (ok, b', p') ∧
      p'.pathOptions = u.uri.asString.length := by
  have hcount := countP_pathAdditions port u
  cases hencoded : (b.restarted.encoded blockNumber).1 with
  | false =>
    refine ⟨_, _, _, Blockwise.setHeader_refused hnumber hpath hencoded, ?_⟩
    have hperm := Packet.appendAll_perm std [] (Blockwise.pathAdditions port u)
    rw [Packet.pathOptions, hperm.countP_eq, List.nil_append, hcount]
  | true =>
    refine ⟨_, _, _, Blockwise.setHeader_legal hnumber hpath hencoded, ?_⟩
    have hperm := Packet.appendAll_perm std []
      (Blockwise.headerAdditions blockNumber b.restarted port u)
    rw [Packet.pathOptions, hperm.countP_eq, List.nil_append, Blockwise.headerAdditions,
      List.map_append, List.countP_append, hcount]
    simp [Addition.option, hother]

end Header

/-! ## Which paths can be downloaded -/

/-- A path that is read with its own number of tokens and its own last one holds no NUL. -/
theorem notMem_of_readTokens {path : List UInt8}
    (hcount : (readTokens path).length = (tokens slash path).length)
    (hlast : (readTokens path).getLast? = (tokens slash path).getLast?) : 0 ∉ path := by
  intro hnul
  obtain ⟨s, t, rfl, hs⟩ := List.eq_append_cons_of_mem hnul
  have hall : ∀ c ∈ s, decide (c ≠ 0) = true := fun c hc => by
    rw [decide_eq_true_eq]
    rintro rfl
    exact hs hc
  have hread : readTokens (s ++ 0 :: t) = tokens slash s := by
    rw [readTokens, List.takeWhile_append_of_pos hall, List.takeWhile_cons_of_neg (by simp),
      List.append_nil]
  rw [hread] at hcount hlast
  exact tokens_goes_on (by decide) s t hcount.symm hlast.symm

/-- **Which of the accepted paths can be downloaded**: those without NUL whose first segment does not
look like a number and whose segments are within the bound of an option. -/
theorem downloadable_iff {path : List UInt8} {u : Uri} (h : Uri.ofPath path = .ok u) :
    Downloadable path u ↔
      0 ∉ path ∧ (∀ w ∈ (tokens slash path).head?, ¬NumberLike w) ∧
        ∀ w ∈ tokens slash path, w.length ≤ optionMaxLength := by
  have hblock1 : block1Number ≤ optionMaxNumber := by decide
  have hother1 : UInt16.ofNat block1Number ≠ UInt16.ofNat uriPath := by decide
  have hother2 : UInt16.ofNat block2Number ≠ UInt16.ofNat uriPath := by decide
  obtain ⟨first, rest, hread, hbuilt⟩ := ofPath_eq_ok h
  constructor
  · rintro ⟨-, ⟨name, hname, hlast⟩, -, hblock⟩
    rw [fileName_eq_ok] at hname
    obtain ⟨ok, b', p', hset, hcount⟩ := hblock .insertion .init 0 .fresh
    have hpath : u.LegalPath := (Blockwise.setHeader_eq_ok block2Number_le hset).2.2.1
    obtain ⟨ok₂, b₂, p₂, hset₂, hcount₂⟩ : ∃ ok b' p',
        Blockwise.init.block2SetHeader .insertion 0 u .fresh = .ok (ok, b', p') ∧
          p'.pathOptions = u.uri.asString.length :=
      setHeader_pathOptions block2Number_le hother2 hpath
    obtain rfl : p₂ = p' := by
      have hsame := Except.ok.inj (hset₂.symm.trans hset)
      exact (Prod.mk.inj (Prod.mk.inj hsame).2).2
    rcases hbuilt with ⟨-, rfl⟩ | ⟨hnumber, rfl⟩
    · -- the list of strings is empty
      cases hname
    · have hnul : 0 ∉ path := by
        apply notMem_of_readTokens
        · rw [hread, ← hcount, hcount₂]
        · rw [hread, hlast]
          exact hname
      rw [← readTokens_eq hnul, hread]
      exact ⟨hnul, by simpa using hnumber, hpath⟩
  · rintro ⟨hnul, hplain, hlength⟩
    rw [← readTokens_eq hnul, hread] at hplain hlength
    have hnumber : ¬NumberLike first := by simpa using hplain
    obtain ⟨hbad, -⟩ | ⟨-, rfl⟩ := hbuilt
    · exact absurd hbad hnumber
    · have htokens : tokens slash path = first :: rest := by rw [← readTokens_eq hnul, hread]
      obtain ⟨name, hlast⟩ : ∃ name, (first :: rest).getLast? = some name :=
        ⟨_, List.getLast?_cons⟩
      have hname : Uri.fileName ⟨path, .string, first :: rest, []⟩ = .ok name :=
        fileName_eq_ok.mpr hlast
      refine ⟨?_, ?_, ?_, ?_⟩
      · intro conn pdu tvSec error
        exact (create_returns_iff path conn pdu tvSec error).mpr ⟨_, name, h, hname⟩
      · exact ⟨name, hname, by rw [htokens, hlast]⟩
      · intro std b port p
        rw [htokens]
        exact setHeader_pathOptions hblock1 hother1 hlength
      · intro std b port p
        rw [htokens]
        exact setHeader_pathOptions block2Number_le hother2 hlength

/-- The path `/a/b`. -/
theorem downloadable_iff_sample :
    Downloadable [0x2F, 0x61, 0x2F, 0x62]
        ⟨[0x2F, 0x61, 0x2F, 0x62], .string, [[0x61], [0x62]], []⟩ ↔
      0 ∉ ([0x2F, 0x61, 0x2F, 0x62] : List UInt8) ∧
        (∀ w ∈ (tokens slash [0x2F, 0x61, 0x2F, 0x62]).head?, ¬NumberLike w) ∧
        ∀ w ∈ tokens slash [0x2F, 0x61, 0x2F, 0x62], w.length ≤ optionMaxLength :=
  downloadable_iff (by decide)

/-- The path `/1a` is accepted, and the file name is read from an empty vector. -/
theorem not_downloadable_digit :
    ∃ u, Uri.ofPath [0x2F, 0x31, 0x61] = .ok u ∧ u.fileName = .error .outOfRange ∧
      ¬Downloadable [0x2F, 0x31, 0x61] u := by
  refine ⟨⟨[0x2F, 0x31, 0x61], .integer, [], [1]⟩, by decide, by decide, fun h => ?_⟩
  obtain ⟨name, hname, -⟩ := h.names
  cases hname

end LibCoap
