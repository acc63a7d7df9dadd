import Recast.Foundation.Separating
import Recast.Storage.File
import Recast.Model.Error

/-!
# The container of a model file

A model file is a header (magic, version, endian marker, payload length,
payload checksum) and the payload. `readPayload` is the part of `load` that
checks the header; what the payload says is left to a decoder.
-/

namespace Recast

open Foundation

/-- `kModelMagic`: `RCQMODL1`. -/
def kModelMagic : Bytes := [82, 67, 81, 77, 79, 68, 76, 49]

def kModelVersion : Nat := 1

def kEndianMarker : Nat := 0x01020304

/-- The largest payload `load` accepts. -/
def kMaximumModelBytes : Nat := 2 ^ 30

def kFnvOffset : UInt64 := 1469598103934665603

def kFnvPrime : UInt64 := 1099511628211

/-- One step of the FNV-1a hash. -/
def checksumStep (hash : UInt64) (byte : UInt8) : UInt64 :=
  (hash ^^^ byte.toUInt64) * kFnvPrime

/-- `checksum`: FNV-1a over the payload, modulo `2^64`. -/
def checksum (bytes : Bytes) : UInt64 :=
  bytes.foldl checksumStep kFnvOffset

/-- Everything `save` writes before the checksum. -/
def modelPreamble (payloadBytes : Nat) : Bytes :=
  kModelMagic ++ toLittleEndian 4 kModelVersion ++ toLittleEndian 4 kEndianMarker ++
    toLittleEndian 8 payloadBytes

/-- The file `save` writes for a payload. -/
def modelFile (payload : Bytes) : Bytes :=
  modelPreamble payload.length ++ toLittleEndian 8 (checksum payload).toNat ++ payload

/-- `read_file_scalar`: the next `width` bytes of the header. -/
def readFileScalar (width : Nat) (input : Bytes) : Except ModelError (Nat × Bytes) :=
  if input.length < width then .error (.runtime "truncated quantizer model header")
  else .ok (ofLittleEndian (input.take width), input.drop width)

/-- The header and checksum part of `RecastQuantizer::load`. -/
def readPayload (file : Bytes) : Except ModelError Bytes :=
  if file.length < kModelMagic.length ∨ file.take kModelMagic.length ≠ kModelMagic then
    .error (.runtime "invalid Recast quantizer model magic")
  else do
    let (version, input) ← readFileScalar 4 (file.drop kModelMagic.length)
    if version ≠ kModelVersion then
      .error (.runtime "unsupported Recast quantizer model version")
    else do
      let (marker, input) ← readFileScalar 4 input
      if marker ≠ kEndianMarker then
        .error (.runtime "Recast quantizer model has incompatible endianness")
      else do
        let (persistedBytes, input) ← readFileScalar 8 input
        let (persistedChecksum, input) ← readFileScalar 8 input
        if persistedBytes > kMaximumModelBytes ∨ persistedBytes > sizeMax then
          .error (.runtime "Recast quantizer model payload is too large")
        -- A short read and a byte left over after the payload are one check.
        else if input.length < persistedBytes ∨ input.drop persistedBytes ≠ [] then
          .error (.runtime "Recast quantizer model length is inconsistent")
        else if (checksum (input.take persistedBytes)).toNat ≠ persistedChecksum then
          .error (.runtime "Recast quantizer model checksum mismatch")
        else .ok (input.take persistedBytes)

/-- `load`, for a decoder of the payload. -/
def loadModel {Q : Type} (decodePayload : Bytes → Except ModelError Q) (file : Bytes) :
    Except ModelError Q := do
  let payload ← readPayload file
  decodePayload payload

theorem readFileScalar_eq_ok {width value : Nat} {input rest : Bytes} :
    readFileScalar width input = .ok (value, rest) ↔
      width ≤ input.length ∧ value = ofLittleEndian (input.take width) ∧ rest = input.drop width := by
  unfold readFileScalar
  split
  · next hshort => simp only [reduceCtorEq, false_iff]; omega
  · next hlong =>
      simp only [Except.ok.injEq, Prod.mk.injEq]
      constructor
      · rintro ⟨rfl, rfl⟩
        exact ⟨by omega, rfl, rfl⟩
      · rintro ⟨-, rfl, rfl⟩
        exact ⟨rfl, rfl⟩

/-- A scalar that was read is the first bytes of the input. -/
theorem readFileScalar_input {width value : Nat} {input rest : Bytes}
    (h : readFileScalar width input = .ok (value, rest)) :
    input = toLittleEndian width value ++ rest := by
  obtain ⟨hlength, rfl, rfl⟩ := readFileScalar_eq_ok.mp h
  have htake : (input.take width).length = width := by rw [List.length_take]; omega
  have hbytes := toLittleEndian_ofLittleEndian (input.take width)
  rw [htake] at hbytes
  rw [hbytes, List.take_append_drop]

theorem readFileScalar_append {width value : Nat} (hvalue : value < 256 ^ width) (rest : Bytes) :
    readFileScalar width (toLittleEndian width value ++ rest) = .ok (value, rest) := by
  rw [readFileScalar_eq_ok]
  have hlength := length_toLittleEndian width value
  refine ⟨by simp, ?_, ?_⟩
  · rw [List.take_left' hlength, ofLittleEndian_toLittleEndian hvalue]
  · rw [List.drop_left' hlength]

/-- The header is accepted on no other file than the one written for the
payload it returns. -/
theorem modelFile_of_readPayload {file payload : Bytes} (h : readPayload file = .ok payload) :
    file = modelFile payload := by
  simp only [readPayload, guard_eq_ok, bind_eq_ok, Prod.exists] at h
  obtain ⟨hmagic, version, input, hversion, hversionValue, marker, input₂, hmarker, hmarkerValue,
    bytes, input₃, hbytes, sum, input₄, hsum, -, hlength, hchecksum, hpayload⟩ := h
  simp only [Except.ok.injEq] at hpayload
  push Not at hmagic hversionValue hmarkerValue hlength hchecksum
  have hinput₄ : input₄ = payload := by
    have := List.take_append_drop bytes input₄
    rw [hlength.2, List.append_nil] at this
    rw [← hpayload, this]
  have hcount : bytes = payload.length := by
    rw [← hpayload, List.length_take]
    omega
  have hfile : file = kModelMagic ++ file.drop kModelMagic.length := by
    conv_lhs => rw [← List.take_append_drop kModelMagic.length file, hmagic.2]
  rw [hfile, readFileScalar_input hversion, readFileScalar_input hmarker,
    readFileScalar_input hbytes, readFileScalar_input hsum, hversionValue, hmarkerValue, hinput₄,
    ← hchecksum, hpayload, hcount]
  simp only [modelFile, modelPreamble, List.append_assoc]

theorem length_le_of_readPayload {file payload : Bytes} (h : readPayload file = .ok payload) :
    payload.length ≤ sizeMax := by
  simp only [readPayload, guard_eq_ok, bind_eq_ok, Prod.exists] at h
  obtain ⟨-, -, -, -, -, -, -, -, -, bytes, -, -, -, input₄, -, hmaximum, -, -, hpayload⟩ := h
  push Not at hmaximum
  rw [← Except.ok.inj hpayload]
  exact (List.length_take_le _ _).trans hmaximum.2

/-- A payload of a size `load` accepts is read back from its file. -/
theorem readPayload_modelFile {payload : Bytes} (h : payload.length ≤ kMaximumModelBytes) :
    readPayload (modelFile payload) = .ok payload := by
  have hsize : payload.length < 256 ^ 8 := by
    have : kMaximumModelBytes < 256 ^ 8 := by decide
    omega
  have hfile : modelFile payload = kModelMagic ++ (toLittleEndian 4 kModelVersion ++
      (toLittleEndian 4 kEndianMarker ++ (toLittleEndian 8 payload.length ++
        (toLittleEndian 8 (checksum payload).toNat ++ payload)))) := by
    simp only [modelFile, modelPreamble, List.append_assoc]
  have hmagic : kModelMagic.length = 8 := rfl
  simp only [readPayload, guard_eq_ok, bind_eq_ok, Prod.exists, hfile]
  refine ⟨?_, kModelVersion, _, ?_, not_not.mpr rfl, kEndianMarker, _,
    readFileScalar_append (by decide) _, not_not.mpr rfl, payload.length, _,
    readFileScalar_append hsize _, _, payload,
    readFileScalar_append (checksum payload).toNat_lt _, ?_, ?_, ?_, ?_⟩
  · rw [List.take_left' rfl, List.length_append]
    simp
  · rw [List.drop_left' rfl]
    exact readFileScalar_append (by decide) _
  · have : kMaximumModelBytes ≤ sizeMax := by decide
    omega
  · simp
  · rw [List.take_length]
    exact not_not.mpr rfl
  · rw [List.take_length]

/-! ## Damage -/

/-- What can have happened to a file: one byte is another, the end is missing,
or bytes follow it. -/
inductive Damaged (file : Bytes) : Bytes → Prop where
  | replaced (before after : Bytes) (byte byte' : UInt8) (hne : byte ≠ byte')
      (hfile : file = before ++ byte :: after) : Damaged file (before ++ byte' :: after)
  | truncated (file' lost : Bytes) (hlost : lost ≠ []) (hfile : file = file' ++ lost) :
      Damaged file file'
  | extended (extra : Bytes) (hextra : extra ≠ []) : Damaged file (file ++ extra)

/-- `kFnvPrime` is odd, so multiplying by it loses nothing modulo `2^64`. -/
theorem mul_kFnvPrime_injective : Function.Injective fun hash : UInt64 => hash * kFnvPrime := by
  have hinverse : kFnvPrime * 0xce965057aff6957b = 1 := by decide
  intro hash hash' h
  have := congrArg (· * 0xce965057aff6957b) h
  simpa only [UInt64.mul_assoc, hinverse, UInt64.mul_one] using this

theorem checksumStep_injective_state (byte : UInt8) :
    Function.Injective fun hash => checksumStep hash byte := by
  intro hash hash' h
  have hxor := congrArg (· ^^^ byte.toUInt64) (mul_kFnvPrime_injective h)
  simpa only [UInt64.xor_assoc, UInt64.xor_self, UInt64.xor_zero] using hxor

theorem checksumStep_injective_byte (hash : UInt64) : Function.Injective (checksumStep hash) := by
  intro byte byte' h
  have hxor := congrArg (hash ^^^ ·) (mul_kFnvPrime_injective h)
  simp only [← UInt64.xor_assoc, UInt64.xor_self, UInt64.zero_xor] at hxor
  have hvalue := congrArg UInt64.toNat hxor
  rw [UInt8.toNat_toUInt64, UInt8.toNat_toUInt64] at hvalue
  exact UInt8.toNat_inj.mp hvalue

/-- Words that differ in one byte have different checksums, at any length. -/
theorem checksum_ne (before after : Bytes) {byte byte' : UInt8} (hne : byte ≠ byte') :
    checksum (before ++ byte :: after) ≠ checksum (before ++ byte' :: after) :=
  foldl_ne_of_one_symbol checksumStep_injective_state checksumStep_injective_byte _ before after hne

theorem length_modelPreamble (payloadBytes : Nat) : (modelPreamble payloadBytes).length = 24 := by
  simp [modelPreamble, kModelMagic]

theorem length_modelFile (payload : Bytes) : (modelFile payload).length = 32 + payload.length := by
  simp [modelFile, length_modelPreamble]
  omega

theorem drop_modelFile (payload : Bytes) : (modelFile payload).drop 32 = payload := by
  rw [modelFile, List.drop_left']
  simp [length_modelPreamble]

/-- The preamble and the checksum of two files that agree in their first 32
bytes are the same. -/
theorem checksum_eq_of_take {payload payload' : Bytes}
    (h : (modelFile payload).take 32 = (modelFile payload').take 32) :
    checksum payload = checksum payload' := by
  have htake (word : Bytes) : ((modelFile word).take 32).drop 24 =
      toLittleEndian 8 (checksum word).toNat := by
    rw [modelFile, List.take_left' (by simp [length_modelPreamble]),
      List.drop_left' (length_modelPreamble _)]
  have hbytes := congrArg (List.drop 24) h
  rw [htake, htake] at hbytes
  have hvalue := congrArg ofLittleEndian hbytes
  rw [ofLittleEndian_toLittleEndian (checksum payload).toNat_lt,
    ofLittleEndian_toLittleEndian (checksum payload').toNat_lt] at hvalue
  exact UInt64.toNat_inj.mp hvalue

/-- Two files that agree in their preambles have payloads of one length. -/
theorem length_eq_of_take {payload payload' : Bytes} (hsize : payload.length ≤ sizeMax)
    (hsize' : payload'.length ≤ sizeMax)
    (h : (modelFile payload).take 24 = (modelFile payload').take 24) :
    payload.length = payload'.length := by
  have htake (word : Bytes) : ((modelFile word).take 24).drop 16 =
      toLittleEndian 8 word.length := by
    rw [modelFile, List.append_assoc, List.take_left' (length_modelPreamble _), modelPreamble,
      List.drop_left' (by simp [kModelMagic])]
  have hmax : sizeMax < 256 ^ 8 := by decide
  have hbytes := congrArg (List.drop 16) h
  rw [htake, htake] at hbytes
  have hvalue := congrArg ofLittleEndian hbytes
  rwa [ofLittleEndian_toLittleEndian (by omega), ofLittleEndian_toLittleEndian (by omega)] at hvalue

/-- No model file is a proper prefix of another. -/
theorem modelFile_prefix_free {payload payload' rest : Bytes} (hsize : payload.length ≤ sizeMax)
    (hsize' : payload'.length ≤ sizeMax) (h : modelFile payload = modelFile payload' ++ rest) :
    rest = [] := by
  have htake : (modelFile payload).take 24 = (modelFile payload').take 24 := by
    rw [h, List.take_append_of_le_length]
    rw [length_modelFile]
    omega
  have hlength := congrArg List.length h
  rw [List.length_append, length_modelFile, length_modelFile,
    length_eq_of_take hsize hsize' htake] at hlength
  exact List.eq_nil_of_length_eq_zero (by omega)

/-- No two model files differ in one byte only. -/
theorem modelFile_distance {payload payload' before after : Bytes} {byte byte' : UInt8}
    (hfile : modelFile payload = before ++ byte :: after)
    (hfile' : modelFile payload' = before ++ byte' :: after) : byte = byte' := by
  by_contra hne
  cases Nat.lt_or_ge before.length 32 with
  | inl hheader =>
      -- The byte is in the header, so the payloads and with them the files agree.
      have hpayload : payload = payload' := by
        rw [← drop_modelFile payload, ← drop_modelFile payload', hfile, hfile', List.drop_append,
          List.drop_append, ← Nat.succ_pred_eq_of_pos (Nat.sub_pos_of_lt hheader),
          List.drop_succ_cons, List.drop_succ_cons]
      rw [hpayload, hfile', List.append_cancel_left_eq, List.cons.injEq] at hfile
      exact hne hfile.1.symm
  | inr hpayload =>
      have htake : (modelFile payload).take 32 = (modelFile payload').take 32 := by
        rw [hfile, hfile', List.take_append_of_le_length hpayload,
          List.take_append_of_le_length hpayload]
      have hdrop (word : Bytes) (b : UInt8) (h : modelFile word = before ++ b :: after) :
          word = before.drop 32 ++ b :: after := by
        rw [← List.drop_append_of_le_length hpayload, ← h, drop_modelFile]
      refine checksum_ne (before.drop 32) after hne ?_
      rw [← hdrop payload byte hfile, ← hdrop payload' byte' hfile']
      exact checksum_eq_of_take htake

/-- A damaged model file is never accepted: `load` throws whatever the decoder
of the payload does. The checksum alone separates payloads of any length that
differ in one byte. -/
theorem damaged_model_rejected {Q : Type} (decodePayload : Bytes → Except ModelError Q)
    (payload : Bytes) (hsize : payload.length ≤ sizeMax) :
    (∀ file', Damaged (modelFile payload) file' →
      ∃ error, loadModel decodePayload file' = .error error) ∧
    ∀ (before after : Bytes) (byte byte' : UInt8), byte ≠ byte' →
      checksum (before ++ byte :: after) ≠ checksum (before ++ byte' :: after) := by
  refine ⟨?_, fun before after byte byte' hne => checksum_ne before after hne⟩
  intro file' hdamaged
  cases hread : readPayload file' with
  | error error => exact ⟨error, by rw [loadModel, hread]; rfl⟩
  | ok payload' =>
      exfalso
      have hfile' := modelFile_of_readPayload hread
      have hsize' := length_le_of_readPayload hread
      cases hdamaged with
      | replaced before after byte byte' hne hfile =>
          exact hne (modelFile_distance hfile hfile'.symm)
      | truncated _ lost hlost hfile =>
          rw [hfile'] at hfile
          exact hlost (modelFile_prefix_free hsize hsize' hfile)
      | extended extra hextra =>
          exact hextra (modelFile_prefix_free hsize' hsize hfile'.symm)

/-- A model file of one payload byte, cut after its magic. -/
theorem damaged_model_rejected_short :
    Damaged (modelFile [7]) kModelMagic ∧
      ∃ error, loadModel (fun payload => .ok payload) kModelMagic = .error error := by
  have hdamaged : Damaged (modelFile [7]) kModelMagic :=
    .truncated _ ((modelFile [7]).drop 8) (by decide) (by decide)
  exact ⟨hdamaged, (damaged_model_rejected _ [7] (by decide)).1 _ hdamaged⟩

end Recast
