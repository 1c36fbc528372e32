/-
  File:      OriginCCL/Bootstrap/Wire.lean
  Subject:   THE WIRE FORMAT of the bootstrap messages (`src/utils.cpp`, `src/bootstrap.cpp`).

  * `NodeInfo` -- what a rank announces. An `int` is 32 bits, a port 16, a string a list of bytes.
  * `encodeInt` ... `decodeNodeInfo`, `encodeAllNodes`, `decodeAllNodes` -- the functions of the
    source. A read outside the buffer and a negative length are faults: the source does not check
    them, so nothing is promised about what a process does there.
  * `nodeFormat`, `tableFormat` -- the byte strings that are a whole record, or a whole table.
  * `decodeNodeInfo_accepts`, `decodeAllNodes_accepts` -- **the decoders read exactly these**.
  * `decodeNodeInfo_recovers`, `decodeAllNodes_recovers` -- a decoder that returns on (a part of)
    what was encoded returns what was encoded.
-/
import Mathlib.Algebra.Group.Nat.Defs
import OriginCCL.Base.Codec

namespace OriginCCL.Bootstrap

open OriginCCL.Base

/-- `NodeInfo` -/
structure NodeInfo where
  rank : Int32 := 0
  ipAddr : List UInt8 := []
  dataPort : UInt16 := 0
  hostname : List UInt8 := []
  rdmaAddr : List UInt8 := []
  rdmaPort : UInt16 := 0
  p2pPort : UInt16 := 0
  p2pRdmaPort : UInt16 := 0
  deriving DecidableEq, Repr

/-- What a function of the source runs into where it leaves its buffers. -/
inductive Fault where
  /-- A read past the end of the received buffer. -/
  | outOfBounds
  /-- A negative length, converted to `size_t`: `std::length_error`. -/
  | lengthError
  /-- A write past the ends of `all_nodes`. -/
  | outOfTable
  deriving DecidableEq, Repr

/-! ## 1. Integers and strings -/

/-- The bytes of `htonl`, most significant first. -/
def htonl (value : UInt32) : List UInt8 :=
  [(value >>> 24).toUInt8, (value >>> 16).toUInt8, (value >>> 8).toUInt8, value.toUInt8]

def ntohl (a b c d : UInt8) : UInt32 :=
  .ofNat (a.toNat * 2 ^ 24 + b.toNat * 2 ^ 16 + c.toNat * 2 ^ 8 + d.toNat)

/-- `EncodeInt` -/
def encodeInt (buffer : List UInt8) (value : Int32) : List UInt8 := buffer ++ htonl value.toUInt32

/-- `DecodeInt` -/
def decodeInt : Decoder Fault UInt8 Int32 := fun buffer => do
  let offset ← get
  match buffer.drop offset with
  | a :: b :: c :: d :: _ =>
    set (offset + 4)
    return (ntohl a b c d).toInt32
  | _ => throw .outOfBounds

/-- `EncodeString`. The length is cast to `int`. -/
def encodeString (buffer str : List UInt8) : List UInt8 :=
  encodeInt buffer (.ofNat str.length) ++ str

/-- The `std::string ret(buffer + offset, length)` of `DecodeString`. -/
def decodeChars (length : Int32) : Decoder Fault UInt8 (List UInt8) := fun buffer => do
  let offset ← get
  if length.toInt < 0 then throw .lengthError
  else if (buffer.drop offset).length < length.toInt.toNat then throw .outOfBounds
  else
    set (offset + length.toInt.toNat)
    return (buffer.drop offset).take length.toInt.toNat

/-- `DecodeString` -/
def decodeString : Decoder Fault UInt8 (List UInt8) := fun buffer => do
  let length ← decodeInt buffer
  decodeChars length buffer

/-! ## 2. Records and tables -/

/-- The `int` a port is promoted to. -/
def portInt (port : UInt16) : Int32 := port.toUInt32.toInt32

/-- `static_cast<uint16_t>` -/
def intPort (value : Int32) : UInt16 := value.toUInt32.toUInt16

/-- `EncodeNodeInfo` -/
def encodeNodeInfo (buffer : List UInt8) (node : NodeInfo) : List UInt8 :=
  let buffer := encodeInt buffer node.rank
  let buffer := encodeString buffer node.ipAddr
  let buffer := encodeInt buffer (portInt node.dataPort)
  let buffer := encodeString buffer node.hostname
  let buffer := encodeString buffer node.rdmaAddr
  let buffer := encodeInt buffer (portInt node.rdmaPort)
  let buffer := encodeInt buffer (portInt node.p2pPort)
  encodeInt buffer (portInt node.p2pRdmaPort)

/-- `DecodeNodeInfo` -/
def decodeNodeInfo : Decoder Fault UInt8 NodeInfo := fun buffer => do
  let rank ← decodeInt buffer
  let ipAddr ← decodeString buffer
  let dataPort ← decodeInt buffer
  let hostname ← decodeString buffer
  let rdmaAddr ← decodeString buffer
  let rdmaPort ← decodeInt buffer
  let p2pPort ← decodeInt buffer
  let p2pRdmaPort ← decodeInt buffer
  return {
    rank, ipAddr, dataPort := intPort dataPort, hostname, rdmaAddr, rdmaPort := intPort rdmaPort,
    p2pPort := intPort p2pPort, p2pRdmaPort := intPort p2pRdmaPort }

/-- The message of `BroadcastAllNodes`: the count and the records. -/
def encodeAllNodes (nodes : List NodeInfo) : List UInt8 :=
  nodes.foldl encodeNodeInfo (encodeInt [] (.ofNat nodes.length))

/-- The loop of `RecvAllNodes`, after `nodes.resize(num_nodes)`. -/
def decodeNodes (numNodes : Int32) : Decoder Fault UInt8 (List NodeInfo) := fun buffer => do
  if numNodes.toInt < 0 then throw .lengthError
  else decodeNodeInfo.times buffer numNodes.toInt.toNat

/-- `RecvAllNodes`, once the message is received. -/
def decodeAllNodes : Decoder Fault UInt8 (List NodeInfo) := fun buffer => do
  let numNodes ← decodeInt buffer
  decodeNodes numNodes buffer

/-! ## 3. The formats -/

/-- An integer: four bytes, most significant first. -/
def intFormat : Format UInt8 Int32 := fun value l =>
  ∃ a b c d, l = [a, b, c, d] ∧ value = (ntohl a b c d).toInt32

/-- As many characters as the length says, which is not negative. -/
def charsFormat (length : Int32) : Format UInt8 (List UInt8) := fun str l =>
  l = str ∧ (str.length : Int) = length.toInt

/-- A string: its length and its characters. -/
def stringFormat : Format UInt8 (List UInt8) := do
  let length ← intFormat
  charsFormat length

/-- A record. A port may have any upper half. -/
def nodeFormat : Format UInt8 NodeInfo := do
  let rank ← intFormat
  let ipAddr ← stringFormat
  let dataPort ← intFormat
  let hostname ← stringFormat
  let rdmaAddr ← stringFormat
  let rdmaPort ← intFormat
  let p2pPort ← intFormat
  let p2pRdmaPort ← intFormat
  return {
    rank, ipAddr, dataPort := intPort dataPort, hostname, rdmaAddr, rdmaPort := intPort rdmaPort,
    p2pPort := intPort p2pPort, p2pRdmaPort := intPort p2pRdmaPort }

/-- As many records as the count says, which is not negative. -/
def nodesFormat (numNodes : Int32) : Format UInt8 (List NodeInfo) := fun nodes l =>
  0 ≤ numNodes.toInt ∧ nodeFormat.times numNodes.toInt.toNat nodes l

/-- A table: its count and its records. -/
def tableFormat : Format UInt8 (List NodeInfo) := do
  let numNodes ← intFormat
  nodesFormat numNodes

/-! ## 4. The decoders read the formats -/

theorem ntohl_htonl (value : UInt32) :
    ntohl (value >>> 24).toUInt8 (value >>> 16).toUInt8 (value >>> 8).toUInt8 value.toUInt8 =
      value := by
  refine UInt32.toNat_inj.mp ?_
  have hlt := value.toNat_lt
  simp [ntohl, Nat.shiftRight_eq_div_pow]
  omega

theorem intFormat_htonl (value : Int32) : intFormat value (htonl value.toUInt32) := by
  refine ⟨_, _, _, _, rfl, ?_⟩
  rw [ntohl_htonl, Int32.toInt32_toUInt32]

theorem length_intFormat {value : Int32} {l : List UInt8} (h : intFormat value l) :
    l.length = 4 := by
  obtain ⟨a, b, c, d, rfl, -⟩ := h
  rfl

/-- `DecodeInt`: four bytes, if there are four. -/
theorem decodeInt_run (buffer : List UInt8) (offset : Nat) :
    (decodeInt buffer).run offset = match buffer.drop offset with
      | a :: b :: c :: d :: _ => .ok ((ntohl a b c d).toInt32, offset + 4)
      | _ => .error .outOfBounds := by
  show (match buffer.drop offset with
    | a :: b :: c :: d :: _ => do set (offset + 4); return (ntohl a b c d).toInt32
    | _ => throw .outOfBounds : StateT Nat (Except Fault) Int32).run offset = _
  split <;> rfl

theorem decodeInt_accepts : decodeInt.Accepts intFormat := by
  intro buffer offset value offset'
  rw [decodeInt_run]
  constructor
  · intro h
    split at h
    · rename_i a b c d rest hb
      cases h
      exact ⟨[a, b, c, d], ⟨a, b, c, d, rfl, rfl⟩, ⟨rest, hb.symm⟩, rfl⟩
    · cases h
  · rintro ⟨l, ⟨a, b, c, d, rfl, rfl⟩, ⟨rest, hb⟩, rfl⟩
    rw [← hb]
    rfl

/-- The string constructor: as many bytes as the length says, if there are as many. -/
theorem decodeChars_run (length : Int32) (buffer : List UInt8) (offset : Nat) :
    (decodeChars length buffer).run offset =
      if length.toInt < 0 then .error .lengthError
      else if (buffer.drop offset).length < length.toInt.toNat then .error .outOfBounds
      else .ok ((buffer.drop offset).take length.toInt.toNat, offset + length.toInt.toNat) := by
  show (if length.toInt < 0 then throw .lengthError
    else if (buffer.drop offset).length < length.toInt.toNat then throw .outOfBounds
    else do
      set (offset + length.toInt.toNat)
      return (buffer.drop offset).take length.toInt.toNat :
    StateT Nat (Except Fault) (List UInt8)).run offset = _
  split_ifs <;> rfl

theorem decodeChars_accepts (length : Int32) : (decodeChars length).Accepts (charsFormat length) := by
  intro buffer offset str offset'
  rw [decodeChars_run]
  constructor
  · intro h
    split_ifs at h with hneg hend
    cases h
    have hlen : ((buffer.drop offset).take length.toInt.toNat).length = length.toInt.toNat := by
      rw [List.length_take]
      omega
    refine ⟨_, ⟨rfl, ?_⟩, List.take_prefix _ _, by rw [hlen]⟩
    rw [hlen]
    omega
  · rintro ⟨l, ⟨rfl, hlen⟩, ⟨rest, hb⟩, rfl⟩
    have hnat : length.toInt.toNat = l.length := by omega
    have hroom : l.length ≤ (buffer.drop offset).length := by
      rw [← hb, List.length_append]
      omega
    rw [if_neg (by omega), hnat, if_neg (by omega), ← hb, List.take_left]

theorem decodeString_accepts : decodeString.Accepts stringFormat :=
  decodeInt_accepts.bind decodeChars_accepts

/-- **`DecodeNodeInfo` reads exactly the records.** -/
theorem decodeNodeInfo_accepts : decodeNodeInfo.Accepts nodeFormat := by
  refine decodeInt_accepts.bind fun rank => ?_
  refine decodeString_accepts.bind fun ipAddr => ?_
  refine decodeInt_accepts.bind fun dataPort => ?_
  refine decodeString_accepts.bind fun hostname => ?_
  refine decodeString_accepts.bind fun rdmaAddr => ?_
  refine decodeInt_accepts.bind fun rdmaPort => ?_
  refine decodeInt_accepts.bind fun p2pPort => ?_
  refine decodeInt_accepts.bind fun p2pRdmaPort => ?_
  exact Decoder.accepts_pure _

theorem decodeNodes_run (numNodes : Int32) (buffer : List UInt8) (offset : Nat) :
    (decodeNodes numNodes buffer).run offset =
      if numNodes.toInt < 0 then .error .lengthError
      else (decodeNodeInfo.times buffer numNodes.toInt.toNat).run offset := by
  show (if numNodes.toInt < 0 then throw .lengthError
    else decodeNodeInfo.times buffer numNodes.toInt.toNat :
    StateT Nat (Except Fault) (List NodeInfo)).run offset = _
  split_ifs <;> rfl

theorem decodeNodes_accepts (numNodes : Int32) :
    (decodeNodes numNodes).Accepts (nodesFormat numNodes) := by
  intro buffer offset nodes offset'
  rw [decodeNodes_run]
  split_ifs with hneg
  · constructor
    · intro h
      cases h
    · rintro ⟨l, ⟨hpos, -⟩, -⟩
      omega
  · rw [decodeNodeInfo_accepts.times numNodes.toInt.toNat buffer offset nodes offset']
    have hpos : 0 ≤ numNodes.toInt := by omega
    simp only [nodesFormat, hpos, true_and]

/-- **`RecvAllNodes` reads exactly the tables.** -/
theorem decodeAllNodes_accepts : decodeAllNodes.Accepts tableFormat :=
  decodeInt_accepts.bind decodeNodes_accepts

/-! ## 5. What the encoders write -/

/-- The bytes of a string. -/
def stringBytes (str : List UInt8) : List UInt8 :=
  htonl (Int32.ofNat str.length).toUInt32 ++ str

/-- The bytes of a record. -/
def nodeBytes (node : NodeInfo) : List UInt8 := encodeNodeInfo [] node

theorem encodeString_eq (buffer str : List UInt8) :
    encodeString buffer str = buffer ++ stringBytes str := by
  rw [encodeString, encodeInt, stringBytes, List.append_assoc]

theorem encodeNodeInfo_eq (buffer : List UInt8) (node : NodeInfo) :
    encodeNodeInfo buffer node = buffer ++ nodeBytes node := by
  simp only [nodeBytes, encodeNodeInfo, encodeString_eq, encodeInt, List.append_assoc,
    List.nil_append]

/-- The parts of a record. -/
theorem nodeBytes_eq (node : NodeInfo) :
    nodeBytes node = htonl node.rank.toUInt32 ++ (stringBytes node.ipAddr ++
      (htonl (portInt node.dataPort).toUInt32 ++ (stringBytes node.hostname ++
      (stringBytes node.rdmaAddr ++ (htonl (portInt node.rdmaPort).toUInt32 ++
      (htonl (portInt node.p2pPort).toUInt32 ++
      (htonl (portInt node.p2pRdmaPort).toUInt32 ++ []))))))) := by
  simp only [nodeBytes, encodeNodeInfo, encodeString_eq, encodeInt, List.append_assoc,
    List.nil_append, List.append_nil]

theorem foldl_encodeNodeInfo (buffer : List UInt8) (nodes : List NodeInfo) :
    nodes.foldl encodeNodeInfo buffer = buffer ++ nodes.flatMap nodeBytes := by
  induction nodes generalizing buffer with
  | nil => simp
  | cons node nodes ih =>
    rw [List.foldl_cons, ih, encodeNodeInfo_eq, List.flatMap_cons, List.append_assoc]

theorem encodeAllNodes_eq (nodes : List NodeInfo) :
    encodeAllNodes nodes =
      htonl (Int32.ofNat nodes.length).toUInt32 ++ nodes.flatMap nodeBytes := by
  rw [encodeAllNodes, foldl_encodeNodeInfo, encodeInt, List.nil_append]

@[simp] theorem length_htonl (value : UInt32) : (htonl value).length = 4 := rfl

theorem intPort_portInt (port : UInt16) : intPort (portInt port) = port := by
  rw [intPort, portInt]
  simp

/-- The strings of a record that are sent. -/
def NodeInfo.strings (node : NodeInfo) : List (List UInt8) :=
  [node.ipAddr, node.hostname, node.rdmaAddr]

/-- A record takes at least its eight integers. -/
theorem le_length_nodeBytes (node : NodeInfo) : 32 ≤ (nodeBytes node).length := by
  simp only [nodeBytes_eq, stringBytes, List.length_append, length_htonl]
  omega

/-- A string is shorter than the record it stands in. -/
theorem length_lt_nodeBytes {node : NodeInfo} {str : List UInt8} (h : str ∈ node.strings) :
    str.length < (nodeBytes node).length := by
  simp only [nodeBytes_eq, stringBytes, List.length_append, length_htonl]
  simp only [NodeInfo.strings, List.mem_cons, List.not_mem_nil, or_false] at h
  rcases h with rfl | rfl | rfl <;> omega

/-- A record is shorter than the table it stands in. -/
theorem length_nodeBytes_lt {nodes : List NodeInfo} {node : NodeInfo} (h : node ∈ nodes) :
    (nodeBytes node).length < (encodeAllNodes nodes).length := by
  have hsub := (List.sublist_flatten_of_mem (List.mem_map_of_mem (f := nodeBytes) h)).length_le
  rw [encodeAllNodes_eq, List.length_append, length_htonl, List.flatMap_def]
  omega

/-- A table that fits a message has fewer than 2^31 records. -/
theorem length_nodes_lt {nodes : List NodeInfo} (h : (encodeAllNodes nodes).length < 2 ^ 32) :
    nodes.length < 2 ^ 31 := by
  have hall : nodes.length * 32 ≤ (nodes.flatMap nodeBytes).length := by
    clear h
    induction nodes with
    | nil => simp
    | cons node nodes ih =>
      have := le_length_nodeBytes node
      rw [List.flatMap_cons, List.length_append, List.length_cons]
      omega
  rw [encodeAllNodes_eq, List.length_append] at h
  omega

/-! ### Encodings are of the format -/

theorem stringFormat_stringBytes {str : List UInt8} (h : str.length < 2 ^ 31) :
    stringFormat str (stringBytes str) := by
  refine Format.bind_mk (intFormat_htonl (Int32.ofNat str.length)) ⟨rfl, ?_⟩
  rw [Int32.toInt_ofNat_of_lt h]

/-- What `EncodeNodeInfo` writes is a record. -/
theorem nodeFormat_nodeBytes {node : NodeInfo} (h : ∀ str ∈ node.strings, str.length < 2 ^ 31) :
    nodeFormat node (nodeBytes node) := by
  have hip := stringFormat_stringBytes (h node.ipAddr (by simp [NodeInfo.strings]))
  have hhost := stringFormat_stringBytes (h node.hostname (by simp [NodeInfo.strings]))
  have hrdma := stringFormat_stringBytes (h node.rdmaAddr (by simp [NodeInfo.strings]))
  rw [nodeBytes_eq]
  refine Format.bind_mk (intFormat_htonl node.rank) (Format.bind_mk hip ?_)
  refine Format.bind_mk (intFormat_htonl (portInt node.dataPort)) (Format.bind_mk hhost ?_)
  refine Format.bind_mk hrdma (Format.bind_mk (intFormat_htonl (portInt node.rdmaPort)) ?_)
  refine Format.bind_mk (intFormat_htonl (portInt node.p2pPort)) ?_
  refine Format.bind_mk (intFormat_htonl (portInt node.p2pRdmaPort)) ⟨?_, rfl⟩
  simp only [intPort_portInt]

/-- What `BroadcastAllNodes` sends is a table. -/
theorem tableFormat_encodeAllNodes {nodes : List NodeInfo}
    (h : ∀ node ∈ nodes, ∀ str ∈ node.strings, str.length < 2 ^ 31)
    (hcount : nodes.length < 2 ^ 31) : tableFormat nodes (encodeAllNodes nodes) := by
  rw [encodeAllNodes_eq]
  refine Format.bind_mk (intFormat_htonl (Int32.ofNat nodes.length)) ?_
  have hint := Int32.toInt_ofNat_of_lt hcount
  refine ⟨by omega, ?_⟩
  rw [hint, Int.toNat_natCast]
  exact Format.times_flatMap fun node hnode => nodeFormat_nodeBytes (h node hnode)

/-! ### Decoders recover what was encoded -/

theorem decodeInt_recovers (value : Int32) : decodeInt.Recovers (htonl value.toUInt32) value :=
  decodeInt_accepts.recovers (intFormat_htonl value)

/-- A string of up to 4 GiB is recovered or nothing is: from 2 GiB on its length is negative. -/
theorem decodeString_recovers {str : List UInt8} (h : str.length < 2 ^ 32) :
    decodeString.Recovers (stringBytes str) str := by
  by_cases hsmall : str.length < 2 ^ 31
  · exact decodeString_accepts.recovers (stringFormat_stringBytes hsmall)
  · refine (decodeInt_recovers (Int32.ofNat str.length)).bind (k := decodeChars) ?_
    intro buffer offset got offset' _ hrun
    have hneg : (Int32.ofNat str.length).toInt < 0 := by
      rw [Int32.toInt_ofNat', Int.bmod_def, Int32.size]
      split_ifs <;> omega
    rw [decodeChars_run, if_pos hneg] at hrun
    cases hrun

theorem decodeNodeInfo_recovers {node : NodeInfo}
    (h : ∀ str ∈ node.strings, str.length < 2 ^ 32) :
    decodeNodeInfo.Recovers (nodeBytes node) node := by
  have hip := decodeString_recovers (h node.ipAddr (by simp [NodeInfo.strings]))
  have hhost := decodeString_recovers (h node.hostname (by simp [NodeInfo.strings]))
  have hrdma := decodeString_recovers (h node.rdmaAddr (by simp [NodeInfo.strings]))
  have hnode : NodeInfo.mk node.rank node.ipAddr (intPort (portInt node.dataPort)) node.hostname
      node.rdmaAddr (intPort (portInt node.rdmaPort)) (intPort (portInt node.p2pPort))
      (intPort (portInt node.p2pRdmaPort)) = node := by
    simp only [intPort_portInt]
  rw [nodeBytes_eq]
  refine (decodeInt_recovers node.rank).bind (hip.bind ?_)
  refine (decodeInt_recovers (portInt node.dataPort)).bind (hhost.bind (hrdma.bind ?_))
  refine (decodeInt_recovers (portInt node.rdmaPort)).bind ?_
  refine (decodeInt_recovers (portInt node.p2pPort)).bind ?_
  refine (decodeInt_recovers (portInt node.p2pRdmaPort)).bind ?_
  rw [hnode]
  exact Decoder.recovers_pure node

theorem decodeAllNodes_recovers {nodes : List NodeInfo}
    (h : ∀ node ∈ nodes, ∀ str ∈ node.strings, str.length < 2 ^ 32)
    (hcount : nodes.length < 2 ^ 31) :
    decodeAllNodes.Recovers (encodeAllNodes nodes) nodes := by
  rw [encodeAllNodes_eq]
  refine (decodeInt_recovers (Int32.ofNat nodes.length)).bind (k := decodeNodes) ?_
  intro buffer offset got offset' hcomp hrun
  have hint := Int32.toInt_ofNat_of_lt hcount
  rw [decodeNodes_run, if_neg (by omega), hint, Int.toNat_natCast] at hrun
  refine Decoder.Recovers.times ?_ buffer offset got offset' hcomp hrun
  exact fun node hnode => decodeNodeInfo_recovers (h node hnode)

end OriginCCL.Bootstrap
