import Smongo.Wire.Handshake

/-!
# Framing of messages

Headers, sections, checksums and compression of messages.
-/

namespace Smongo

/-- What the BSON codec and the crates for checksums and compression provide. -/
structure FramingEnv where
  rawDecodeDocument : Bytes → ℕ → Outcome PyErr (Document × ℕ)
  rawEncodeDocument : Document → Outcome PyErr Bytes
  crc32c : Bytes → ℕ
  decompressSnappy : Bytes → Option Bytes
  decompressZlib : Bytes → Option Bytes
  decompressZstd : Bytes → Option Bytes
  compressSnappy : Bytes → Option Bytes
  compressZlib : Bytes → Option Bytes
  compressZstd : Bytes → Option Bytes

structure MsgHeader where
  length : Int32
  requestId : Int32
  responseTo : Int32
  opCode : Int32
deriving DecidableEq

def opReply : Int32 := 1
def opQuery : Int32 := 2004
def opCompressed : Int32 := 2012
def opMsg : Int32 := 2013
def headerSize : ℕ := 16
def maxMsgSize : ℕ := 48 * 1024 * 1024

def readLittleEndian (width : ℕ) (data : Bytes) (off : ℕ) : Outcome PyErr ℕ :=
  if off + width ≤ data.length then
    .ok (Bytes.ofBigEndian ((data.drop off).take width).reverse)
  else .panic

def readI32 (data : Bytes) (off : ℕ) : Outcome PyErr Int32 := do
  .ok (Int32.ofNat (← readLittleEndian 4 data off))

def readU32 (data : Bytes) (off : ℕ) : Outcome PyErr ℕ := readLittleEndian 4 data off

def i32AsUsize (n : Int32) : ℕ := (n.toInt % 2 ^ 64).toNat

def leBytes (width : ℕ) (n : Int) : Bytes := (Bytes.bigEndian width (n % 256 ^ width).toNat).reverse

def i32Bytes (n : Int32) : Bytes := leBytes 4 n.toInt

def byteRange (data : Bytes) (start stop : ℕ) : Outcome PyErr Bytes :=
  if start ≤ stop ∧ stop ≤ data.length then .ok ((data.drop start).take (stop - start))
  else .panic

section

variable (env : FramingEnv) (data : Bytes)

def parseHeader : Outcome PyErr MsgHeader :=
  if data.length < headerSize then .error (.protocolError "message too short for header")
  else do
    let length ← readI32 data 0
    let requestId ← readI32 data 4
    let responseTo ← readI32 data 8
    let opCode ← readI32 data 12
    .ok ⟨length, requestId, responseTo, opCode⟩

def validateChecksum (msgLength : ℕ) : Outcome PyErr Unit :=
  if msgLength < 4 ∨ data.length < msgLength then
    .error (.protocolError "invalid message length for checksum")
  else do
    let expected ← readU32 data (msgLength - 4)
    if env.crc32c (data.take (msgLength - 4)) ≠ expected then
      .error (.protocolError "CRC-32C mismatch")
    else .ok ()

def zeroFrom (off stop : ℕ) : Outcome PyErr (Option ℕ) := do
  let part ← byteRange data off stop
  .ok ((part.findIdx? (· = 0)).map (· + off))

def decodeDocuments (data : Bytes) (stop : ℕ) : ℕ → ℕ → List Document →
    Outcome PyErr (List Document × ℕ)
  | 0, _, _ => .panic
  | fuel + 1, off, docs =>
    if stop ≤ off then .ok (docs, off)
    else do
      let (doc, off) ← env.rawDecodeDocument data off
      decodeDocuments data stop fuel off (docs ++ [doc])

def decodeSequence (off : ℕ) : Outcome PyErr (String × List Document × ℕ) :=
  if data.length < off + 4 then .error (.protocolError "truncated Kind 1 section header")
  else do
    let sectionSize ← readI32 data off
    let sectionEnd := off + i32AsUsize sectionSize
    match ← zeroFrom data (off + 4) sectionEnd with
    | none => .error (.protocolError "missing null terminator in Kind 1 identifier")
    | some nullPos => do
      let bytes ← byteRange data (off + 4) nullPos
      match bytes.ofUtf8 with
      | none => .error (.protocolError "invalid UTF-8")
      | some identifier => do
        let (docs, off) ← decodeDocuments env data sectionEnd (data.length + 1) (nullPos + 1) []
        .ok (identifier, docs, off)

/-- The sections up to `stop`: the last body and the document sequences. -/
def decodeSections (data : Bytes) (stop : ℕ) : ℕ → ℕ → Option Document × Document →
    Outcome PyErr (Option Document × Document)
  | 0, _, _ => .panic
  | fuel + 1, off, (body, sequences) =>
    if stop ≤ off then .ok (body, sequences)
    else
      match data[off]? with
      | none => .error (.protocolError "truncated OP_MSG sections")
      | some 0 => do
        let (doc, off) ← env.rawDecodeDocument data (off + 1)
        decodeSections data stop fuel off (some doc, sequences)
      | some 1 => do
        let (identifier, docs, off) ← decodeSequence env data (off + 1)
        decodeSections data stop fuel off
          (body, sequences.insert identifier (.array (docs.map .document)))
      | some kind => .error (.protocolError ("unknown OP_MSG section kind: " ++ toString kind))

def decodeMsg : Outcome PyErr (MsgHeader × ℕ × Option Document × Document) := do
  let header ← parseHeader data
  if data.length < headerSize + 4 then
    .error (.protocolError "message too short for OP_MSG flags")
  else do
    let flags ← readU32 data headerSize
    let hasChecksum := flags.testBit 0
    let stop := i32AsUsize header.length - if hasChecksum then 4 else 0
    if hasChecksum then validateChecksum env data (i32AsUsize header.length) else .ok ()
    let (body, sequences) ←
      decodeSections env data stop (data.length + 1) (headerSize + 4) (none, [])
    .ok (header, flags, body, sequences)

/-- Apart from the first, a compressor is followed by a test of the declared size. -/
def decompress (cid : UInt8) (data : Bytes) (expected : ℕ) : Outcome PyErr Bytes :=
  if maxMsgSize < expected then
    .error (.protocolError ("declared uncompressed size " ++ toString expected ++
      " exceeds limit " ++ toString maxMsgSize))
  else
    let sized (name : String) (out : Option Bytes) : Outcome PyErr Bytes :=
      match out with
      | none => .error (.protocolError (name ++ " decompression error"))
      | some out =>
        if out.length ≠ expected then
          .error (.protocolError (name ++ " decompressed size " ++ toString out.length ++
            " != declared " ++ toString expected))
        else .ok out
    match cid with
    | 0 => .ok data
    | 1 => sized "snappy" (env.decompressSnappy data)
    | 2 => sized "zlib" (env.decompressZlib data)
    | 3 => sized "zstd" (env.decompressZstd data)
    | _ => .error (.protocolError ("unknown compressor id: " ++ toString cid))

def decodeCompressed : Outcome PyErr Bytes := do
  let header ← parseHeader data
  if data.length < headerSize + 9 then .error (.protocolError "truncated OP_COMPRESSED header")
  else do
    let originalOpcode ← readI32 data headerSize
    let uncompressedSize ← readI32 data (headerSize + 4)
    let compressedData ← byteRange data (headerSize + 9) (i32AsUsize header.length)
    let decompressed ← decompress env (data.getD (headerSize + 8) 0) compressedData
      (i32AsUsize uncompressedSize)
    .ok (leBytes 4 (headerSize + decompressed.length) ++ i32Bytes header.requestId ++
      i32Bytes header.responseTo ++ i32Bytes originalOpcode ++ decompressed)

/-- The header and the query document of an `OP_QUERY`; the rest is read and not used. -/
def decodeQuery : Outcome PyErr (MsgHeader × Document) := do
  let header ← parseHeader data
  if data.length < headerSize + 4 then .error (.protocolError "truncated OP_QUERY flags")
  else do
    match ← zeroFrom data (headerSize + 4) data.length with
    | none => .error (.protocolError "missing null in collection name")
    | some nullPos => do
      let name ← byteRange data (headerSize + 4) nullPos
      if (name.ofUtf8).isNone then .error (.protocolError "invalid UTF-8")
      else if data.length < nullPos + 1 + 8 then
        .error (.protocolError "truncated OP_QUERY skip/limit")
      else do
        let (doc, _) ← env.rawDecodeDocument data (nullPos + 1 + 8)
        .ok (header, doc)

def frame (requestId responseTo opCode : Int32) (payload : Bytes) : Bytes :=
  leBytes 4 (headerSize + payload.length) ++ i32Bytes requestId ++ i32Bytes responseTo ++
    i32Bytes opCode ++ payload

/-- Replies have no checksum. -/
def encodeMsg (requestId responseTo : Int32) (doc : Document) : Outcome PyErr Bytes := do
  let body ← env.rawEncodeDocument doc
  .ok (frame requestId responseTo opMsg (leBytes 4 0 ++ [0] ++ body))

def encodeReply (requestId responseTo : Int32) (doc : Document) (responseFlags : Int32) :
    Outcome PyErr Bytes := do
  let body ← env.rawEncodeDocument doc
  .ok (frame requestId responseTo opReply (i32Bytes responseFlags ++ leBytes 8 0 ++
    leBytes 4 0 ++ leBytes 4 1 ++ body))

def compress (cid : UInt8) (data : Bytes) : Outcome PyErr Bytes :=
  let compressed (name : String) (out : Option Bytes) : Outcome PyErr Bytes :=
    match out with
    | none => .error (.protocolError (name ++ " compression error"))
    | some out => .ok out
  match cid with
  | 0 => .ok data
  | 1 => compressed "snappy" (env.compressSnappy data)
  | 2 => compressed "zlib" (env.compressZlib data)
  | 3 => compressed "zstd" (env.compressZstd data)
  | _ => .error (.protocolError ("unknown compressor id: " ++ toString cid))

def encodeCompressed (compressorId : Int32) : Outcome PyErr Bytes := do
  let header ← parseHeader data
  let payload := data.drop headerSize
  let cid := UInt8.ofNat (compressorId.toInt % 256).toNat
  let compressed ← compress env cid payload
  .ok (frame header.requestId header.responseTo opCompressed (i32Bytes header.opCode ++
    leBytes 4 payload.length ++ [cid] ++ compressed))

end

end Smongo
