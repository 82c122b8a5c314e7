import X00TDCellular.QmiRoundTrip

/-! The QMI decoders of `vendor-init/qmi.c` over arbitrary bytes. -/

namespace X00TDCellular
open Buffer RecordFormat

/-- The first TLV of a type. -/
def firstTlv (t : UInt8) (xs : List qmiTlv.Record) : Option qmiTlv.Record :=
  xs.find? fun x => x.tag = t

theorem firstTlv_append_cons {t : UInt8} {pre post : List qmiTlv.Record}
    {x : qmiTlv.Record} (hpre : ∀ y ∈ pre, y.tag ≠ t) (hx : x.tag = t) :
    firstTlv t (pre ++ x :: post) = some x := by
  rw [firstTlv, List.find?_eq_some_iff_append]
  exact ⟨by simpa using hx, pre, post, rfl, by simpa using hpre⟩

theorem qmiTlvFind_eq_locate (p : List UInt8) (t : UInt8) :
    qmiTlvFind p p.length t = some (locate t (qmiTlv.decode (p.drop 7)) 7) := by
  rw [qmiTlvFind, qmiTlvFindFrom_eq p p.length t le_rfl 7, List.take_length]

/-- Bytes that hold a TLV behind the header are the header, the TLVs before it, its
three header bytes, its value and a rest. -/
theorem split_at_tlv {p : List UInt8} {pre post : List qmiTlv.Record} {x : qmiTlv.Record}
    (h : qmiTlv.encode (pre ++ x :: post) <+: p.drop 7) :
    ∃ front tail, front.length = 7 ∧
      p = front ++ qmiTlv.encode (pre ++ x :: post) ++ tail := by
  obtain ⟨tail, htail⟩ := h
  refine ⟨p.take 7, tail, ?_, ?_⟩
  · have hlen := congrArg List.length htail
    simp only [encode_append, encode_cons, List.length_append, Record.length_encode,
      List.length_drop] at hlen
    have hwidth : qmiTlv.width = 3 := rfl
    rw [List.length_take]
    omega
  · rw [List.append_assoc, htail, List.take_append_drop]

/-- The place of a TLV in the bytes that hold it. -/
theorem tlv_place {p : List UInt8} {pre post : List qmiTlv.Record} {x : qmiTlv.Record}
    (h : qmiTlv.encode (pre ++ x :: post) <+: p.drop 7) :
    10 + (qmiTlv.encode pre).length + x.value.length ≤ p.length ∧
      p[7 + (qmiTlv.encode pre).length]? = some x.tag ∧
      (p.drop (10 + (qmiTlv.encode pre).length)).take x.value.length = x.value := by
  obtain ⟨front, tail, hfront, hp⟩ := split_at_tlv h
  have hwidth : qmiTlv.width = 3 := rfl
  refine ⟨?_, ?_, ?_⟩
  · have hlen := congrArg List.length hp
    simp only [encode_append, encode_cons, List.length_append, Record.length_encode] at hlen
    omega
  · have hhead : (front ++ qmiTlv.encode pre).length = 7 + (qmiTlv.encode pre).length := by
      rw [List.length_append, hfront]
    have hsplit : p = (front ++ qmiTlv.encode pre) ++
        (x.encode ++ (qmiTlv.encode post ++ tail)) := by
      rw [hp]
      simp only [encode_append, encode_cons, List.append_assoc]
    rw [hsplit, ← hhead, List.getElem?_append_right le_rfl, Nat.sub_self]
    rfl
  · have hval := slice_value front tail pre post x
    rw [← hp, hfront, hwidth] at hval
    have hoff : 10 + (qmiTlv.encode pre).length = 7 + (qmiTlv.encode pre).length + 3 := by
      omega
    rw [hoff]
    exact hval

/-- The place of one of the TLVs that the bytes are read as. -/
theorem tlv_place_of_decode {p : List UInt8} {pre post : List qmiTlv.Record} {x : qmiTlv.Record}
    (hxs : qmiTlv.decode (p.drop 7) = pre ++ x :: post) :
    10 + (qmiTlv.encode pre).length + x.value.length ≤ p.length ∧
      p[7 + (qmiTlv.encode pre).length]? = some x.tag ∧
      (p.drop (10 + (qmiTlv.encode pre).length)).take x.value.length = x.value := by
  have hwhole : qmiTlv.encode (pre ++ x :: post) <+: p.drop 7 := by
    rw [← hxs]
    exact encode_decode_isPrefix _
  exact tlv_place hwhole

/-- What `qmi_tlv_find` returns, by the first TLV of the type. -/
theorem qmiTlvFind_cases (p : List UInt8) (t : UInt8) :
    (qmiTlvFind p p.length t = some none ∧
        firstTlv t (qmiTlv.decode (p.drop 7)) = none) ∨
      ∃ pre x post, qmiTlv.decode (p.drop 7) = pre ++ x :: post ∧
        (∀ y ∈ pre, y.tag ≠ t) ∧ x.tag = t ∧
        firstTlv t (qmiTlv.decode (p.drop 7)) = some x ∧
        qmiTlvFind p p.length t =
          some (some (10 + (qmiTlv.encode pre).length, x.value.length)) := by
  have hfind := qmiTlvFind_eq_locate p t
  cases hloc : locate t (qmiTlv.decode (p.drop 7)) 7 with
  | none =>
    rw [hloc] at hfind
    refine Or.inl ⟨hfind, ?_⟩
    rw [firstTlv, List.find?_eq_none]
    simpa using locate_eq_none.mp hloc
  | some place =>
    obtain ⟨pre, x, post, hxs, hpre, hx, ho, hl⟩ := locate_eq_some hloc
    have hwidth : qmiTlv.width = 3 := rfl
    have hplace : place = (10 + (qmiTlv.encode pre).length, x.value.length) := by
      apply Prod.ext
      · simp only [ho, hwidth]
        omega
      · exact hl
    refine Or.inr ⟨pre, x, post, hxs, hpre, hx, ?_, ?_⟩
    · rw [hxs]
      exact firstTlv_append_cons hpre hx
    · rw [hfind, hloc, hplace]

/-- The cells of a value are cells of the bytes. -/
theorem getElem?_value {p : List UInt8} {pre post : List qmiTlv.Record} {x : qmiTlv.Record}
    (hxs : qmiTlv.decode (p.drop 7) = pre ++ x :: post) {i : ℕ} (hi : i < x.value.length) :
    p[10 + (qmiTlv.encode pre).length + i]? = some (x.value.getD i 0) := by
  rw [getElem?_of_slice (tlv_place_of_decode hxs).2.2 hi, List.getD_eq_getElem?_getD,
    List.getElem?_eq_getElem hi, Option.getD_some]

/-- What `qmi_result` makes of the result TLV. -/
def errorCode (x : qmiTlv.Record) : ℤ :=
  if x.value.length < 4 then -1
  else (getLe16 (x.value.getD 2 0) (x.value.getD 3 0)).toNat

theorem qmiResult_eq (p : List UInt8) :
    qmiResult p p.length =
      some (((firstTlv 0x02 (qmiTlv.decode (p.drop 7))).map errorCode).getD (-1)) := by
  rcases qmiTlvFind_cases p 0x02 with ⟨hfind, hnone⟩ | ⟨pre, x, post, hxs, -, -, hfirst, hfind⟩
  · simp [qmiResult, hfind, hnone]
  · by_cases hshort : x.value.length < 4
    · simp [qmiResult, hfind, hfirst, errorCode, hshort]
    · have h2 := getElem?_value hxs (i := 2) (by omega)
      have h3 := getElem?_value hxs (i := 3) (by omega)
      simp [qmiResult, hfind, hfirst, errorCode, hshort, h2, h3]

/-- What `qmi_tlv_get_u32` makes of the TLV. -/
def u32Value (x : qmiTlv.Record) : Option UInt32 :=
  if x.value.length < 4 then none
  else some (getLe32 (x.value.getD 0 0) (x.value.getD 1 0) (x.value.getD 2 0)
    (x.value.getD 3 0))

theorem qmiTlvGetU32_eq (p : List UInt8) (t : UInt8) :
    qmiTlvGetU32 p p.length t =
      some ((firstTlv t (qmiTlv.decode (p.drop 7))).bind u32Value) := by
  rcases qmiTlvFind_cases p t with ⟨hfind, hnone⟩ | ⟨pre, x, post, hxs, -, -, hfirst, hfind⟩
  · simp [qmiTlvGetU32, hfind, hnone]
  · by_cases hshort : x.value.length < 4
    · simp [qmiTlvGetU32, hfind, hfirst, u32Value, hshort]
    · have h0 := getElem?_value hxs (i := 0) (by omega)
      have h1 := getElem?_value hxs (i := 1) (by omega)
      have h2 := getElem?_value hxs (i := 2) (by omega)
      have h3 := getElem?_value hxs (i := 3) (by omega)
      rw [Nat.add_zero] at h0
      simp [qmiTlvGetU32, hfind, hfirst, u32Value, hshort, h0, h1, h2, h3]

/-- Whatever the bytes are, none outside them is read. What `qmi_tlv_find` delimits is
the first TLV of its type in the longest prefix of whole TLVs behind the header, and a
result or a number is taken from a value of four bytes or more only. -/
theorem decoders_of_any_bytes (p : List UInt8) :
    ∃ xs, qmiTlv.Longest (p.drop 7) xs ∧
      (∀ t, ∃ found, qmiTlvFind p p.length t = some found ∧
        (found = none ↔ ∀ x ∈ xs, x.tag ≠ t) ∧
        ∀ off len, found = some (off, len) →
          10 ≤ off ∧ off + len ≤ p.length ∧ p[off-3]? = some t ∧
          ∃ pre x post, xs = pre ++ x :: post ∧ (∀ y ∈ pre, y.tag ≠ t) ∧ x.tag = t ∧
            off = 10 + (qmiTlv.encode pre).length ∧ (p.drop off).take len = x.value) ∧
      (∃ r, qmiResult p p.length = some r ∧
        (r = -1 ↔ ∀ x, firstTlv 0x02 xs = some x → x.value.length < 4)) ∧
      (∀ t, ∃ v, qmiTlvGetU32 p p.length t = some v ∧
        (v = none ↔ ∀ x, firstTlv t xs = some x → x.value.length < 4)) := by
  refine ⟨qmiTlv.decode (p.drop 7), longest_decode _, ?_, ?_, ?_⟩
  · intro t
    rcases qmiTlvFind_cases p t with ⟨hfind, hnone⟩ |
      ⟨pre, x, post, hxs, hpre, hx, hfirst, hfind⟩
    · refine ⟨none, hfind, ?_, by simp⟩
      rw [firstTlv, List.find?_eq_none] at hnone
      simpa using hnone
    · obtain ⟨hend, htype, hval⟩ := tlv_place_of_decode hxs
      refine ⟨_, hfind, ?_, ?_⟩
      · constructor
        · intro h
          cases h
        · intro hall
          exact absurd hx (hall x (by simp [hxs]))
      · intro off len hplace
        cases hplace
        have hhead : 10 + (qmiTlv.encode pre).length - 3 = 7 + (qmiTlv.encode pre).length := by
          omega
        refine ⟨by omega, hend, ?_, pre, x, post, hxs, hpre, hx, rfl, hval⟩
        rw [hhead, htype, hx]
  · refine ⟨_, qmiResult_eq p, ?_⟩
    cases firstTlv 0x02 (qmiTlv.decode (p.drop 7)) with
    | none => simp
    | some x => by_cases hshort : x.value.length < 4 <;> simp [errorCode, hshort]
  · intro t
    refine ⟨_, qmiTlvGetU32_eq p t, ?_⟩
    cases firstTlv t (qmiTlv.decode (p.drop 7)) with
    | none => simp
    | some x => by_cases hshort : x.value.length < 4 <;> simp [u32Value, hshort]

end X00TDCellular
