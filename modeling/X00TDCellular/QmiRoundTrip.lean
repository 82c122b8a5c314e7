import X00TDCellular.QmiCodec

namespace X00TDCellular
open Buffer RecordFormat

/-- The TLV layout of a QMI message body: a type byte, a little-endian 16-bit
length and the value. -/
def qmiTlv : RecordFormat UInt8 UInt8 where
  width := 3
  cap := 65536
  header t n := [t, UInt8.ofNat (n % 256), UInt8.ofNat (n / 256)]
  fields
    | [t, lo, hi] => (t, lo.toNat + 256*hi.toNat)
    | _ => (0, 0)
  width_pos := by decide
  header_length _ _ := rfl
  fields_header t n hn := by
    have hhi : n / 256 < 256 := by omega
    simp only [UInt8.toNat_ofNat', Nat.reducePow, Nat.mod_mod, Nat.mod_eq_of_lt hhi,
      Prod.mk.injEq, true_and]
    omega
  fields_lt s hs := by
    obtain ⟨t, lo, hi, rfl⟩ := List.length_eq_three.mp hs
    have hlo : lo.toNat < 256 := lo.toNat_lt
    have hhi : hi.toNat < 256 := hi.toNat_lt
    simp only
    omega
  header_fields s hs := by
    obtain ⟨t, lo, hi, rfl⟩ := List.length_eq_three.mp hs
    have hlo : lo.toNat < 256 := lo.toNat_lt
    have h0 : (lo.toNat + 256*hi.toNat) % 256 = lo.toNat := by omega
    have h1 : (lo.toNat + 256*hi.toNat) / 256 = hi.toNat := by omega
    simp [h0, h1]

/-- One call that appends a TLV. The data of a `qmi_tlv_bytes` call is as long
as its `uint16_t` length argument. -/
inductive TlvCall
  | bytes (type : UInt8) (data : {d : List UInt8 // d.length ≤ 65535})
  | u8 (type v : UInt8)
  | u16 (type : UInt8) (v : UInt16)
  | u32 (type : UInt8) (v : UInt32)

def TlvCall.type : TlvCall → UInt8
  | .bytes t _ => t
  | .u8 t _ => t
  | .u16 t _ => t
  | .u32 t _ => t

def TlvCall.payload : TlvCall → List UInt8
  | .bytes _ data => data.val
  | .u8 _ v => [v]
  | .u16 _ v => [byte0 v, byte1 v]
  | .u32 _ v => le32 v

def TlvCall.write (b : List UInt8) (off : ℕ) : TlvCall → Option (List UInt8 × ℕ)
  | .bytes t data => qmiTlvBytes b off t data.val (UInt16.ofNat data.val.length)
  | .u8 t v => qmiTlvU8 b off t v
  | .u16 t v => qmiTlvU16 b off t v
  | .u32 t v => qmiTlvU32 b off t v

/-- The appending calls of a request, in order. -/
def writeTlvs (b : List UInt8) (off : ℕ) : List TlvCall → Option (List UInt8 × ℕ)
  | [] => some (b, off)
  | c :: cs => do
    let (b, off) ← c.write b off
    writeTlvs b off cs

/-- A request as the stages build it: header with body length 0, the TLVs, then
bytes 5 and 6 patched with the body length. -/
def buildRequest (b : List UInt8) (txid msgId : UInt16) (calls : List TlvCall) :
    Option (List UInt8 × ℕ) := do
  let (b, afterHdr) ← qmiHdrReq b txid msgId 0
  let (b, off) ← writeTlvs b afterHdr calls
  let body := UInt16.ofNat (off - afterHdr)
  let b ← poke b 5 (byte0 body)
  let b ← poke b 6 (byte1 body)
  return (b, off)

theorem TlvCall.payload_length_lt (c : TlvCall) : c.payload.length < 65536 := by
  cases c with
  | bytes t data => exact Nat.lt_succ_of_le data.property
  | u8 t v => simp [payload]
  | u16 t v => simp [payload]
  | u32 t v => simp [payload, le32]

/-- The record that a call writes. -/
def TlvCall.record (c : TlvCall) : qmiTlv.Record :=
  ⟨c.type, c.payload, c.payload_length_lt⟩

theorem byte0_ofNat {n : ℕ} (hn : n < 65536) :
    byte0 (UInt16.ofNat n) = UInt8.ofNat (n % 256) := by
  apply UInt8.toNat_inj.mp
  simp [toNat_byte0, Nat.mod_eq_of_lt hn]

theorem byte1_ofNat {n : ℕ} (hn : n < 65536) :
    byte1 (UInt16.ofNat n) = UInt8.ofNat (n / 256) := by
  have hhi : n / 256 < 256 := by omega
  apply UInt8.toNat_inj.mp
  simp [toNat_byte1, Nat.mod_eq_of_lt hn, Nat.mod_eq_of_lt hhi]

/-- `qmi_tlv_bytes` is one run of consecutive stores, the memcpy included. -/
theorem qmiTlvBytes_eq_pokes (b : List UInt8) (off : ℕ) (t : UInt8) (data : List UInt8)
    (len : UInt16) (hlen : data.length = len.toNat) :
    qmiTlvBytes b off t data len =
      (pokes b off (t :: byte0 len :: byte1 len :: data)).map
        fun b' => (b', off + 3 + len.toNat) := by
  have hcopy (b' : List UInt8) :
      (if len ≠ 0 then memcpy b' (off+3) data len.toNat else some b') =
        pokes b' (off+3) data := by
    by_cases hz : len = 0
    · have hnil : data = [] := by
        apply List.length_eq_zero_iff.mp
        rw [hlen, hz]
        rfl
      simp [hz, hnil, pokes]
    · rw [if_pos hz, memcpy, if_pos (Nat.le_of_eq hlen.symm), ← hlen, List.take_length]
  simp only [qmiTlvBytes, hcopy, pokes, Option.bind_eq_bind, Option.pure_def,
    Option.map_eq_bind, Option.bind_assoc, Function.comp_def, Nat.add_assoc,
    Nat.reduceAdd]

/-- Behind a known front part, one encoded record is written. -/
theorem qmiTlvBytes_append (front rest : List UInt8) (r : qmiTlv.Record)
    (h : r.encode.length ≤ rest.length) :
    qmiTlvBytes (front ++ rest) front.length r.tag r.value (UInt16.ofNat r.value.length) =
      some (front ++ r.encode ++ rest.drop r.encode.length,
        front.length + r.encode.length) := by
  have hcap : r.value.length < 65536 := r.value_lt
  have hlen : r.value.length = (UInt16.ofNat r.value.length).toNat := by
    simp [Nat.mod_eq_of_lt hcap]
  have hcells : r.tag :: byte0 (UInt16.ofNat r.value.length) ::
      byte1 (UInt16.ofNat r.value.length) :: r.value = r.encode := by
    rw [byte0_ofNat hcap, byte1_ofNat hcap]
    rfl
  have hwidth : r.encode.length = 3 + r.value.length := Record.length_encode r
  rw [qmiTlvBytes_eq_pokes _ _ _ _ _ hlen, hcells, pokes_append _ _ _ h, ← hlen, hwidth,
    Option.map_some, Nat.add_assoc]

theorem TlvCall.write_eq (b : List UInt8) (off : ℕ) (c : TlvCall) :
    c.write b off =
      qmiTlvBytes b off c.type c.payload (UInt16.ofNat c.payload.length) := by
  cases c <;> rfl

/-- The appending calls write the encoding of their records, one behind the
other, and return the offset past it. -/
theorem writeTlvs_append (front rest : List UInt8) (calls : List TlvCall)
    (h : (qmiTlv.encode (calls.map TlvCall.record)).length ≤ rest.length) :
    writeTlvs (front ++ rest) front.length calls =
      some (front ++ qmiTlv.encode (calls.map TlvCall.record) ++
          rest.drop (qmiTlv.encode (calls.map TlvCall.record)).length,
        front.length + (qmiTlv.encode (calls.map TlvCall.record)).length) := by
  induction calls generalizing front rest with
  | nil => simp [writeTlvs]
  | cons c calls ih =>
    -- the front part grows by the record of each call
    have hsplit : qmiTlv.encode ((c :: calls).map TlvCall.record) =
        c.record.encode ++ qmiTlv.encode (calls.map TlvCall.record) := rfl
    rw [hsplit, List.length_append] at h
    have hfirst : c.write (front ++ rest) front.length =
        some (front ++ c.record.encode ++ rest.drop c.record.encode.length,
          front.length + c.record.encode.length) := by
      rw [TlvCall.write_eq]
      exact qmiTlvBytes_append front rest c.record (by omega)
    have hrest := ih (front ++ c.record.encode) (rest.drop c.record.encode.length)
      (by rw [List.length_drop]; omega)
    rw [List.length_append] at hrest
    simp only [writeTlvs, hfirst, Option.bind_eq_bind, Option.bind_some, hrest]
    simp only [hsplit, List.drop_drop, List.append_assoc, List.length_append, Nat.add_assoc]

/-- The seven header bytes of a request. -/
def qmiHeader (txid msgId bodyLen : UInt16) : List UInt8 :=
  [qmiFlagReq, byte0 txid, byte1 txid, byte0 msgId, byte1 msgId, byte0 bodyLen,
    byte1 bodyLen]

/-- The header is one run of stores as well. -/
theorem qmiHdrReq_eq_pokes (b : List UInt8) (txid msgId bodyLen : UInt16) :
    qmiHdrReq b txid msgId bodyLen =
      (pokes b 0 (qmiHeader txid msgId bodyLen)).map fun b' => (b', 7) := by
  simp only [qmiHdrReq, qmiHeader, pokes, Option.bind_eq_bind, Option.map_bind,
    Option.pure_def, Function.comp_def, Option.map_some, Nat.reduceAdd]

theorem qmiHdrReq_eq (b : List UInt8) (txid msgId bodyLen : UInt16) (h : 7 ≤ b.length) :
    qmiHdrReq b txid msgId bodyLen =
      some (qmiHeader txid msgId bodyLen ++ b.drop 7, 7) := by
  have hrun := pokes_append [] b (qmiHeader txid msgId bodyLen) h
  rw [qmiHdrReq_eq_pokes]
  exact congrArg (Option.map fun b' => (b', 7)) hrun

theorem qmiTlv_next_some (t lo hi : UInt8) (rest : List UInt8)
    (h : (getLe16 lo hi).toNat ≤ rest.length) :
    ∃ r : qmiTlv.Record, qmiTlv.next (t :: lo :: hi :: rest) =
        some (r, rest.drop (getLe16 lo hi).toNat) ∧
      r.tag = t ∧ r.value.length = (getLe16 lo hi).toNat := by
  have hcap : (getLe16 lo hi).toNat < 65536 := (getLe16 lo hi).toNat_lt
  have hvalue : (rest.take (getLe16 lo hi).toNat).length = (getLe16 lo hi).toNat :=
    List.length_take_of_le h
  let r : qmiTlv.Record := ⟨t, rest.take (getLe16 lo hi).toNat, by rw [hvalue]; exact hcap⟩
  refine ⟨r, ?_, rfl, hvalue⟩
  have hlo : lo.toNat < 256 := lo.toNat_lt
  have hhi : hi.toNat < 256 := hi.toNat_lt
  have h0 : (lo.toNat + 256*hi.toNat) % 256 = lo.toNat := by omega
  have h1 : (lo.toNat + 256*hi.toNat) / 256 = hi.toNat := by omega
  have hheader : qmiTlv.header t (getLe16 lo hi).toNat = [t, lo, hi] := by
    simp [qmiTlv, toNat_getLe16, h0, h1]
  have hsplit : t :: lo :: hi :: rest = r.encode ++ rest.drop (getLe16 lo hi).toNat := by
    rw [Record.encode, hvalue, hheader, List.append_assoc, List.take_append_drop]
    rfl
  rw [hsplit]
  exact next_encode_append r _

theorem qmiTlv_next_none (t lo hi : UInt8) (rest : List UInt8)
    (h : rest.length < (getLe16 lo hi).toNat) :
    qmiTlv.next (t :: lo :: hi :: rest) = none := by
  have hlong : ¬ 3 + (lo.toNat + 256*hi.toNat) ≤ rest.length+3 := by
    rw [toNat_getLe16] at h
    omega
  simp [next, qmiTlv, hlong]

theorem qmiTlv_next_short (s : List UInt8) (h : s.length < 3) : qmiTlv.next s = none := by
  have hshort : ¬ qmiTlv.width ≤ s.length := Nat.not_le_of_lt h
  rw [next, dif_neg hshort]

/-- The loop walks exactly the whole records that start at offset `i` and stops
at the first one of the type, without an access outside the array. -/
theorem qmiTlvFindFrom_eq (p : List UInt8) (n : ℕ) (type : UInt8) (hn : n ≤ p.length)
    (i : ℕ) :
    qmiTlvFindFrom p n type i =
      some (locate type (qmiTlv.decode ((p.take n).drop i)) i) := by
  induction hm : n - i using Nat.strongRecOn generalizing i with
  | ind m ih =>
    rw [qmiTlvFindFrom]
    by_cases hi : i + 3 ≤ n
    · have h0 : i < p.length := by omega
      have h1 : i+1 < p.length := by omega
      have h2 : i+2 < p.length := by omega
      -- the three header bytes in front of what is left of the message
      have hcells : (p.take n).drop i = p[i] :: p[i+1] :: p[i+2] :: (p.take n).drop (i+3) := by
        have htake : (p.take n).length = n := List.length_take_of_le hn
        rw [List.drop_eq_getElem_cons (by omega), List.drop_eq_getElem_cons (by omega),
          List.drop_eq_getElem_cons (by omega)]
        simp only [List.getElem_take]
      have hleft : ((p.take n).drop (i+3)).length = n - (i+3) := by
        rw [List.length_drop, List.length_take_of_le hn]
      rw [if_pos hi, hcells]
      simp only [List.getElem?_eq_getElem h0, List.getElem?_eq_getElem h1,
        List.getElem?_eq_getElem h2, Option.bind_eq_bind, Option.bind_some]
      -- a value that runs past the end stops the loop, as it stops the decoder
      by_cases hl : i + 3 + (getLe16 p[i+1] p[i+2]).toNat > n
      · have hnext := qmiTlv_next_none p[i] p[i+1] p[i+2] ((p.take n).drop (i+3)) (by omega)
        rw [if_pos hl, decode_of_next_none hnext]
        rfl
      · obtain ⟨r, hnext, htag, hvalue⟩ := qmiTlv_next_some p[i] p[i+1] p[i+2]
          ((p.take n).drop (i+3)) (by omega)
        rw [if_neg hl, decode_of_next_some hnext, locate, htag, hvalue]
        by_cases ht : p[i] = type
        · rw [if_pos ht, if_pos ht]
          rfl
        · rw [if_neg ht, if_neg ht, List.drop_drop]
          exact ih _ (by omega) _ rfl
    · have hshort : ((p.take n).drop i).length < 3 := by
        rw [List.length_drop, List.length_take_of_le hn]
        omega
      rw [if_neg hi, decode_of_next_none (qmiTlv_next_short _ hshort)]
      rfl

/-- The body bytes of the calls: a three-byte TLV header and the payload each. -/
def bodySize (calls : List TlvCall) : ℕ :=
  (calls.map fun c => 3 + c.payload.length).sum

theorem encode_records_length (calls : List TlvCall) :
    (qmiTlv.encode (calls.map TlvCall.record)).length = bodySize calls := by
  induction calls with
  | nil => rfl
  | cons c calls ih =>
    rw [List.map_cons, encode_cons, List.length_append, Record.length_encode, ih]
    rfl

/-- A request that fits in the buffer is its header with the final body length,
the encoded TLVs, and the untouched rest of the buffer. -/
theorem buildRequest_eq (b : List UInt8) (txid msgId : UInt16) (calls : List TlvCall)
    (hbuf : 7 + bodySize calls ≤ b.length) :
    buildRequest b txid msgId calls =
      some (qmiHeader txid msgId (UInt16.ofNat (bodySize calls)) ++
          qmiTlv.encode (calls.map TlvCall.record) ++ b.drop (7 + bodySize calls),
        7 + bodySize calls) := by
  have hheader := qmiHdrReq_eq b txid msgId 0 (by omega)
  have htlvs := writeTlvs_append (qmiHeader txid msgId 0) (b.drop 7) calls (by
    rw [encode_records_length, List.length_drop]
    omega)
  have hseven : (qmiHeader txid msgId 0).length = 7 := rfl
  rw [encode_records_length, List.drop_drop, hseven] at htlvs
  have hbody : 7 + bodySize calls - 7 = bodySize calls := Nat.add_sub_cancel_left _ _
  simp only [buildRequest, hheader, htlvs, Option.bind_eq_bind, Option.bind_some, hbody]
  simp [qmiHeader, poke]

/-- The value of a record in the body lies behind the header, the records
before it and its own three header bytes. -/
theorem slice_value (front tail : List UInt8) (pre post : List qmiTlv.Record)
    (r : qmiTlv.Record) :
    ((front ++ qmiTlv.encode (pre ++ r :: post) ++ tail).drop
        (front.length + (qmiTlv.encode pre).length + qmiTlv.width)).take r.value.length =
      r.value := by
  let head := front ++ qmiTlv.encode pre ++ qmiTlv.header r.tag r.value.length
  have hhead : head.length =
      front.length + (qmiTlv.encode pre).length + qmiTlv.width := by
    simp only [head, List.length_append, qmiTlv.header_length]
  have hsplit : front ++ qmiTlv.encode (pre ++ r :: post) ++ tail =
      head ++ r.value ++ (qmiTlv.encode post ++ tail) := by
    simp only [head, encode_append, encode_cons, Record.encode, List.append_assoc]
  rw [hsplit, ← hhead]
  exact slice_append head r.value _

theorem qmiTlvFind_message (front tail : List UInt8) (xs : List qmiTlv.Record)
    (t : UInt8) (hfront : front.length = 7) :
    qmiTlvFind (front ++ qmiTlv.encode xs ++ tail) (7 + (qmiTlv.encode xs).length) t =
      some (locate t xs 7) := by
  have hlen : (front ++ qmiTlv.encode xs).length = 7 + (qmiTlv.encode xs).length := by
    rw [List.length_append, hfront]
  have hn : 7 + (qmiTlv.encode xs).length ≤ (front ++ qmiTlv.encode xs ++ tail).length := by
    rw [List.length_append, hlen]
    omega
  rw [qmiTlvFind, qmiTlvFindFrom_eq _ _ _ hn, List.take_left' hlen, List.drop_left' hfront,
    decode_encode]

theorem locate_record {calls pre post : List TlvCall} {c : TlvCall}
    (hcalls : calls = pre ++ c :: post) (hfirst : ∀ d ∈ pre, d.type ≠ c.type) :
    locate c.type (calls.map TlvCall.record) 7 =
      some (7 + bodySize pre + 3, c.payload.length) := by
  have hpre : ∀ r ∈ pre.map TlvCall.record, r.tag ≠ c.type := by
    intro r hr
    obtain ⟨d, hd, rfl⟩ := List.mem_map.mp hr
    exact hfirst d hd
  rw [hcalls, List.map_append, List.map_cons, locate_append_cons hpre rfl,
    encode_records_length]
  rfl

/-- `qmi_tlv_get_u32` reads the four bytes that `qmi_tlv_find` delimits. -/
theorem qmiTlvGetU32_of_find {p : List UInt8} {n o : ℕ} {t b0 b1 b2 b3 : UInt8}
    (hfind : qmiTlvFind p n t = some (some (o, 4)))
    (hval : (p.drop o).take 4 = [b0, b1, b2, b3]) :
    qmiTlvGetU32 p n t = some (some (getLe32 b0 b1 b2 b3)) := by
  have hread (k : ℕ) (hk : k < 4) : p[o+k]? = [b0, b1, b2, b3][k]? :=
    getElem?_of_slice hval hk
  have h0 : p[o]? = some b0 := hread 0 (by decide)
  have h1 : p[o+1]? = some b1 := hread 1 (by decide)
  have h2 : p[o+2]? = some b2 := hread 2 (by decide)
  have h3 : p[o+3]? = some b3 := hread 3 (by decide)
  simp [qmiTlvGetU32, hfind, h0, h1, h2, h3]

/-- Codec round trip. The message that `buildRequest` leaves in the buffer has
the number of body bytes in its length field; `qmi_tlv_find` delimits the payload
of the first TLV of a type and returns 0 exactly when there is none; and
`qmi_tlv_get_u32` reads back what `qmi_tlv_u32` wrote. -/
theorem buildRequest_roundtrip (b : List UInt8) (txid msgId : UInt16)
    (calls : List TlvCall) (hbody : bodySize calls ≤ 65535)
    (hbuf : 7 + bodySize calls ≤ b.length) :
    ∃ msg off, buildRequest b txid msgId calls = some (msg, off) ∧
      off = 7 + bodySize calls ∧
      msg.take 5 = [qmiFlagReq, byte0 txid, byte1 txid, byte0 msgId, byte1 msgId] ∧
      (∃ lo hi, msg[5]? = some lo ∧ msg[6]? = some hi ∧ (getLe16 lo hi).toNat = off - 7) ∧
      (∀ pre c post, calls = pre ++ c :: post → (∀ d ∈ pre, d.type ≠ c.type) →
        ∃ o l, qmiTlvFind msg off c.type = some (some (o, l)) ∧
          o + l ≤ off ∧ l = c.payload.length ∧ (msg.drop o).take l = c.payload) ∧
      (∀ t, qmiTlvFind msg off t = some none ↔ ∀ c ∈ calls, c.type ≠ t) ∧
      (∀ pre t v post, calls = pre ++ .u32 t v :: post → (∀ d ∈ pre, d.type ≠ t) →
        qmiTlvGetU32 msg off t = some (some v)) := by
  let front := qmiHeader txid msgId (UInt16.ofNat (bodySize calls))
  let xs := calls.map TlvCall.record
  let tail := b.drop (7 + bodySize calls)
  have hlen : (qmiTlv.encode xs).length = bodySize calls := encode_records_length calls
  have hfind (t : UInt8) :
      qmiTlvFind (front ++ qmiTlv.encode xs ++ tail) (7 + bodySize calls) t =
        some (locate t xs 7) := by
    rw [← hlen]
    exact qmiTlvFind_message front tail xs t rfl
  -- the payload of the first TLV of a type, with the offset found for it
  have hslice (pre : List TlvCall) (c : TlvCall) (post : List TlvCall)
      (hcalls : calls = pre ++ c :: post) :
      ((front ++ qmiTlv.encode xs ++ tail).drop (7 + bodySize pre + 3)).take
        c.payload.length = c.payload := by
    have hxs : xs = pre.map TlvCall.record ++ c.record :: post.map TlvCall.record := by
      simp only [xs, hcalls, List.map_append, List.map_cons]
    have hval := slice_value front tail (pre.map TlvCall.record) (post.map TlvCall.record)
      c.record
    rw [encode_records_length, ← hxs] at hval
    exact hval
  refine ⟨_, _, buildRequest_eq b txid msgId calls hbuf, rfl, rfl, ?_, ?_, ?_, ?_⟩
  · refine ⟨_, _, rfl, rfl, ?_⟩
    have hmod : bodySize calls % 65536 = bodySize calls := by omega
    rw [toNat_getLe16, toNat_byte0, toNat_byte1]
    simp only [UInt16.toNat_ofNat', Nat.reducePow, hmod]
    omega
  · intro pre c post hcalls hfirst
    refine ⟨_, _, (hfind c.type).trans (congrArg some (locate_record hcalls hfirst)), ?_, rfl,
      hslice pre c post hcalls⟩
    rw [hcalls]
    simp only [bodySize, List.map_append, List.map_cons, List.sum_append, List.sum_cons]
    omega
  · intro t
    change qmiTlvFind (front ++ qmiTlv.encode xs ++ tail) (7 + bodySize calls) t = some none ↔ _
    rw [hfind t, Option.some_inj, locate_eq_none]
    constructor
    · intro h c hc
      exact h c.record (List.mem_map_of_mem hc)
    · intro h r hr
      obtain ⟨c, hc, rfl⟩ := List.mem_map.mp hr
      exact h c hc
  · intro pre t v post hcalls hfirst
    have hloc := locate_record hcalls hfirst
    have hval := hslice pre (.u32 t v) post hcalls
    obtain ⟨b0, b1, b2, b3, hbytes, hget⟩ := getLe32_le32 v
    have hpayload : (TlvCall.u32 t v).payload = [b0, b1, b2, b3] := hbytes
    rw [hpayload] at hval hloc
    exact (qmiTlvGetU32_of_find ((hfind t).trans (congrArg some hloc)) hval).trans (by rw [hget])

/-- A request of `stage_nas_rat` with a two-byte, an empty and a four-byte TLV. -/
theorem buildRequest_roundtrip_sample :
    ∃ msg off, buildRequest (List.replicate 128 0) 7 0x33
        [.u16 0x11 0x1234, .bytes 0x16 ⟨[], by decide⟩, .u32 0x11 5] = some (msg, off) ∧
      qmiTlvFind msg off 0x10 = some none := by
  have hbody : bodySize [.u16 0x11 0x1234, .bytes 0x16 ⟨[], by decide⟩, .u32 0x11 5] = 15 := rfl
  obtain ⟨msg, off, hbuild, _, _, _, _, hnone, _⟩ :=
    buildRequest_roundtrip (List.replicate 128 0) 7 0x33
      [.u16 0x11 0x1234, .bytes 0x16 ⟨[], by decide⟩, .u32 0x11 5]
      (by rw [hbody]; decide) (by rw [hbody, List.length_replicate]; decide)
  refine ⟨msg, off, hbuild, (hnone 0x10).mpr ?_⟩
  decide

end X00TDCellular
