import Arcon.Kompact.Frame
import Arcon.Lib.Protobuf

/-!
# Which Kompact frames go round

The decoder reads signed bytes, so an address with an octet above 127 is not the one that comes out
of the header (`readPaths_low`; the encoder does not get as far, since `toByte` throws). The encoder
counts UTF-16 code units where it should count bytes, so the length field is right for ASCII paths
only (`payloadLen_eq_iff`). The other frames are read back field by field (`reads_path`).

* **`frame_round_trip_iff`**: a frame goes round exactly when no octet of the two addresses is above
  127, both paths are ASCII, and the frame fits into a `ByteBuf`.
-/

namespace Arcon.Kompact

open Bytes

/-! ## Strings -/

/-- `s` is ASCII. -/
def Ascii (s : String) : Prop := ∀ c ∈ s.toList, c.toNat < 128

theorem codeUnits_le (c : Char) : codeUnits c ≤ (String.utf8EncodeChar c).length ∧
    (codeUnits c = (String.utf8EncodeChar c).length ↔ c.toNat < 128) := by
  rw [String.length_utf8EncodeChar]
  have hval : c.toNat = c.val.toNat := rfl
  unfold codeUnits Char.utf8Size
  simp only [UInt32.le_iff_toNat_le]
  rw [hval]
  split_ifs <;> simp_all <;> omega

theorem sum_codeUnits_le (cs : List Char) :
    (cs.map codeUnits).sum ≤ (cs.flatMap String.utf8EncodeChar).length ∧
      ((cs.map codeUnits).sum = (cs.flatMap String.utf8EncodeChar).length ↔
        ∀ c ∈ cs, c.toNat < 128) := by
  induction cs with
  | nil => simp
  | cons c cs ih =>
    obtain ⟨hle, heq⟩ := codeUnits_le c
    obtain ⟨ihle, iheq⟩ := ih
    rw [List.map_cons, List.sum_cons, List.flatMap_cons, List.length_append, List.forall_mem_cons,
      ← heq, ← iheq]
    omega

theorem utf16Length_le (s : String) : utf16Length s ≤ (getBytes s).length :=
  (sum_codeUnits_le s.toList).1

/-- Only the length of ASCII strings is the number of their bytes. -/
theorem utf16Length_eq_iff (s : String) : utf16Length s = (getBytes s).length ↔ Ascii s :=
  (sum_codeUnits_le s.toList).2

theorem toStringUtf8_getBytes (replaced : Bytes → String) (s : String) :
    toStringUtf8 replaced (getBytes s) = s := by
  have hbytes : (⟨(getBytes s).toArray⟩ : ByteArray) = s.toByteArray := by
    rw [← String.utf8Encode_toList]
    apply ByteArray.ext
    simp [getBytes, List.utf8Encode]
  rw [toStringUtf8, hbytes, String.fromUTF8?, dif_pos s.isValidUTF8]
  rfl

/-! ## Addresses -/

/-- The address with these octets. -/
def dotted (octets : List Nat) : String := ".".intercalate (octets.map toString)

theorem dot_notMem_toDigits (n : Nat) : '.' ∉ Nat.toDigits 10 n := by
  intro h
  have hdigit := Nat.isDigit_of_mem_toDigits (by decide) (by decide) h
  revert hdigit
  decide

theorem toList_dotted (octets : List Nat) :
    (dotted octets).toList = ['.'].intercalate (octets.map (Nat.toDigits 10)) := by
  rw [dotted, String.toList_intercalate, List.map_map]
  congr 1
  apply List.map_congr_left
  intro n _
  simp

theorem splitOn_dotted {octets : List Nat} (h : octets ≠ []) :
    (dotted octets).toList.splitOn '.' = octets.map (Nat.toDigits 10) := by
  rw [toList_dotted, List.splitOn_intercalate]
  · intro l hl
    obtain ⟨n, -, rfl⟩ := List.mem_map.mp hl
    exact dot_notMem_toDigits n
  · simpa using h

/-- The digits of ASCII come first. -/
theorem digit_of_isDigit {c : Char} (h : c.isDigit = true) :
    Character.digit c = some (c.toNat - '0'.toNat) := by
  have hzeros : Character.zeros = '0'.toNat :: Character.zeros.tail := rfl
  have hc : '0'.toNat ≤ c.toNat ∧ c.toNat < '0'.toNat + 10 := by
    obtain ⟨hlow, hhigh⟩ := Char.isDigit_iff_toNat.mp h
    exact ⟨hlow, Nat.lt_succ_of_le hhigh⟩
  rw [Character.digit, hzeros, List.find?_cons, decide_eq_true hc]
  rfl

theorem mapM_digit {cs : List Char} (h : ∀ c ∈ cs, c.isDigit = true) :
    cs.mapM Character.digit = some (cs.map fun c => c.toNat - '0'.toNat) := by
  induction cs with
  | nil => rfl
  | cons c cs ih =>
    rw [List.mapM_cons, digit_of_isDigit (h c (by simp)), ih fun c' hc' => h c' (by simp [hc'])]
    rfl

theorem parseDigits_toDigits (n : Nat) : parseDigits (Nat.toDigits 10 n) = some n := by
  have hall : ∀ c ∈ Nat.toDigits 10 n, c.isDigit = true :=
    fun c hc => Nat.isDigit_of_mem_toDigits (by decide) (by decide) hc
  rw [parseDigits, if_neg Nat.toDigits_ne_nil, mapM_digit hall, Option.map_some, List.foldl_map]
  exact congrArg some Nat.ofDigitChars_ten_toDigits

theorem parseInt_toDigits (n : Nat) : parseInt (Nat.toDigits 10 n) = some (n : Int) := by
  have hdigits := parseDigits_toDigits n
  have hsign : ∀ c ∈ Nat.toDigits 10 n, c.isDigit = true :=
    fun c hc => Nat.isDigit_of_mem_toDigits (by decide) (by decide) hc
  unfold parseInt
  split
  · rename_i cs heq
    exact absurd (hsign '-' (by simp [heq])) (by decide)
  · rename_i cs heq
    exact absurd (hsign '+' (by simp [heq])) (by decide)
  · rw [hdigits]
    rfl

theorem toByte_toDigits {n : Nat} (h : n ≤ 127) :
    toByte (Nat.toDigits 10 n) = .ok (UInt8.ofNat n) := by
  have hmod : ((n : Int) % 256).toNat = n := by omega
  rw [toByte, parseInt_toDigits]
  simp only
  rw [if_pos (by omega), hmod]

/-- The octets of an address without high ones are its bytes. -/
theorem mapM_toByte {octets : List Nat} (hquad : octets.length = 4)
    (hlow : ∀ o ∈ octets, o ≤ 127) :
    (split (dotted octets) '.').mapM toByte = .ok (octets.map UInt8.ofNat) := by
  have hne : octets ≠ [] := List.ne_nil_of_length_eq_add_one hquad
  have hsplit : split (dotted octets) '.' = octets.map (Nat.toDigits 10) := by
    have hdot : '.' ∈ (dotted octets).toList := by
      by_contra hnot
      have hone := List.splitOn_eq_singleton hnot
      rw [splitOn_dotted hne] at hone
      have hlen := congrArg List.length hone
      rw [List.length_map, hquad] at hlen
      cases hlen
    rw [split, if_pos hdot, splitOn_dotted hne, List.rdropWhile_eq_self_iff]
    intro hnil
    obtain ⟨n, -, hn⟩ := List.mem_map.mp (List.getLast_mem hnil)
    rw [← hn]
    simp [Nat.toDigits_ne_nil]
  have hloop : ∀ l : List Nat, (∀ o ∈ l, o ≤ 127) →
      (l.map (Nat.toDigits 10)).mapM toByte = .ok (l.map UInt8.ofNat) := by
    intro l hl
    induction l with
    | nil => rfl
    | cons o l ih =>
      rw [List.map_cons, List.mapM_cons, toByte_toDigits (hl o (by simp)),
        ih fun o' ho' => hl o' (by simp [ho'])]
      rfl
  rw [hsplit, hloop octets hlow]

theorem toList_toString_nat (n : Nat) : (toString (n : Int)).toList = Nat.toDigits 10 n := by
  show (Int.repr (Int.ofNat n)).toList = _
  simp [Int.repr]

theorem toList_toString_neg (n : Nat) :
    (toString (Int.negSucc n)).toList = '-' :: Nat.toDigits 10 (n + 1) := by
  show (Int.repr (Int.negSucc n)).toList = _
  simp [Int.repr]

theorem dot_notMem_toString (v : Int) : '.' ∉ (toString v).toList := by
  cases v with
  | ofNat n =>
    have h := toList_toString_nat n
    rw [Int.ofNat_eq_natCast, h]
    exact dot_notMem_toDigits n
  | negSucc n =>
    rw [toList_toString_neg, List.mem_cons, not_or]
    exact ⟨by decide, dot_notMem_toDigits (n + 1)⟩

/-- What the decoder makes of signed bytes is an address only if the octets are not high. -/
theorem mkString_eq_dotted {ips : List Int} {octets : List Nat} (hips : ∀ v ∈ ips, v ≤ 127)
    (hne : ips ≠ []) (hquad : octets ≠ []) (h : mkString ips = dotted octets) :
    ∀ o ∈ octets, o ≤ 127 := by
  have hsplit : (mkString ips).toList.splitOn '.' = ips.map fun v => (toString v).toList := by
    rw [mkString, String.toList_intercalate, List.map_map]
    show (['.'].intercalate _).splitOn '.' = _
    rw [List.splitOn_intercalate]
    · rfl
    · intro l hl
      obtain ⟨v, -, rfl⟩ := List.mem_map.mp hl
      exact dot_notMem_toString v
    · simpa using hne
  rw [h, splitOn_dotted hquad] at hsplit
  intro o ho
  have hmem : Nat.toDigits 10 o ∈ ips.map fun v => (toString v).toList := by
    rw [← hsplit]
    exact List.mem_map_of_mem ho
  obtain ⟨v, hv, heq⟩ := List.mem_map.mp hmem
  have hle := hips v hv
  cases v with
  | ofNat n =>
    have hn : Nat.toDigits 10 n = Nat.toDigits 10 o := by
      rw [← heq]
      exact (toList_toString_nat n).symm
    have hval := congrArg (fun ds => Nat.ofDigitChars 10 ds 0) hn
    simp only [Nat.ofDigitChars_ten_toDigits] at hval
    have hcast : (n : Int) ≤ 127 := hle
    omega
  | negSucc n =>
    -- a minus sign is not a digit
    rw [toList_toString_neg] at heq
    have hdigit : '-'.isDigit = true :=
      Nat.isDigit_of_mem_toDigits (by decide) (by decide)
        (show '-' ∈ Nat.toDigits 10 o by simp [← heq])
    cases hdigit

/-! ## Writing a path and reading it -/

/-- A path as it comes: a dotted quad, a port, and not too long a name. -/
structure Addressed (p : KompactAkkaPath) (octets : List Nat) : Prop where
  ip : p.ip = dotted octets
  quad : octets.length = 4
  octet : ∀ o ∈ octets, o ≤ 255
  port : 0 ≤ p.port ∧ p.port ≤ 65535
  path : (getBytes p.path).length ≤ 65535

/-- The bytes of a path. -/
def pathBytes (p : KompactAkkaPath) (octets : List Nat) : Bytes :=
  toBeSigned 1 129 ++ (octets.map UInt8.ofNat ++ (toBeSigned 2 p.port ++
    (toBeSigned 2 (utf16Length p.path) ++ getBytes p.path)))

theorem length_pathBytes {p : KompactAkkaPath} {octets : List Nat} (h : Addressed p octets) :
    (pathBytes p octets).length = 9 + (getBytes p.path).length := by
  simp only [pathBytes, List.length_append, length_toBeSigned, List.length_map, h.quad]
  omega

theorem writes_path {p : KompactAkkaPath} {octets : List Nat} (h : Addressed p octets)
    (hlow : ∀ o ∈ octets, o ≤ 127) :
    Writes maxCapacity (serializeActorpath p) (pathBytes p octets) := by
  unfold serializeActorpath pathBytes
  rw [h.ip, mapM_toByte h.quad hlow]
  exact (writes_push _ _).seq ((writes_push _ _).seq ((writes_push _ _).seq
    ((writes_push _ _).seq (writes_push _ _))))

theorem toBeSigned_natCast {w n : Nat} (h : n < 256 ^ w) : toBeSigned w n = toBe w n := by
  have hmod : ((n : Int) % 256 ^ w).toNat = n := by
    have hcast : ((n : Int) % 256 ^ w) = ((n % 256 ^ w : Nat) : Int) := by push_cast; rfl
    rw [hcast, Int.toNat_natCast, Nat.mod_eq_of_lt h]
  rw [toBeSigned, hmod]

theorem reads_octet {o : Nat} (h : o ≤ 127) : Reads readByte (o : Int) [UInt8.ofNat o] := by
  have hread := reads_signed Exception.indexOutOfBounds 1 (show [UInt8.ofNat o].length = 1 from rfl)
  have hval : ofBeSigned [UInt8.ofNat o] = (o : Int) := by
    have hbytes : [UInt8.ofNat o] = toBe 1 o := rfl
    rw [hbytes]
    exact ofBeSigned_toBe (by omega)
  rwa [hval] at hread

theorem reads_short {n : Nat} (h : n ≤ 65535) :
    Reads readUnsignedShort n (toBeSigned 2 (n : Int)) := by
  have hlt : n < 256 ^ 2 := by omega
  rw [toBeSigned_natCast hlt]
  exact reads_unsigned _ hlt

/-- **A path is read back** if its address has no high octet and its name is ASCII. -/
theorem reads_path (replaced : Bytes → String) {p : KompactAkkaPath} {octets : List Nat}
    (h : Addressed p octets) (hlow : ∀ o ∈ octets, o ≤ 127) (hascii : Ascii p.path) :
    Reads (deserializeActorpath replaced) p (pathBytes p octets) := by
  obtain ⟨path, ip, port⟩ := p
  obtain ⟨hip, hquad, -, ⟨hport0, hport⟩, hpath⟩ := h
  obtain ⟨o₁, o₂, o₃, o₄, rfl⟩ : ∃ o₁ o₂ o₃ o₄, octets = [o₁, o₂, o₃, o₄] :=
    List.length_eq_four.mp hquad
  obtain ⟨n, rfl⟩ := Int.eq_ofNat_of_zero_le hport0
  simp only at hip hport hpath hascii
  have hlen : utf16Length path = (getBytes path).length := (utf16Length_eq_iff path).mpr hascii
  have hfield : Reads readByte (-127) (toBeSigned 1 129) :=
    reads_signed Exception.indexOutOfBounds 1 rfl
  have hname : Reads (do
      let namedLength ← readUnsignedShort
      let target ← readBytes namedLength
      return (⟨toStringUtf8 replaced target, mkString [(o₁ : Int), o₂, o₃, o₄], n⟩ :
        KompactAkkaPath))
      ⟨path, ip, n⟩ (toBeSigned 2 (utf16Length path) ++ getBytes path) := by
    rw [hlen]
    refine (reads_short hpath).bind ?_
    have htarget : Reads (readBytes (getBytes path).length) (getBytes path) (getBytes path) :=
      reads_pull _ _
    have hread := htarget.bind_pure fun target =>
      (⟨toStringUtf8 replaced target, mkString [(o₁ : Int), o₂, o₃, o₄], n⟩ : KompactAkkaPath)
    rw [toStringUtf8_getBytes] at hread
    rw [hip]
    exact hread
  have ho : ∀ o ∈ [o₁, o₂, o₃, o₄], Reads readByte (o : Int) [UInt8.ofNat o] :=
    fun o hmem => reads_octet (hlow o hmem)
  exact hfield.bind ((ho o₁ (by simp)).bind ((ho o₂ (by simp)).bind ((ho o₃ (by simp)).bind
    ((ho o₄ (by simp)).bind ((reads_short (by omega)).bind hname)))))

theorem ofBeSigned_singleton_le (b : UInt8) : ofBeSigned [b] ≤ 127 := by
  have hval : ofBe [b] = b.toNat := by simp [ofBe, ofLe]
  have hlt := b.toNat_lt
  rw [ofBeSigned, hval]
  simp only [List.length_singleton, pow_one]
  split_ifs <;> omega

theorem readByte_le (source : Bytes) :
    Exec.wp readByte (fun v _ => v ≤ 127) (fun _ _ => True) source := by
  cases source with
  | nil => exact trivial
  | cons b rest => exact ofBeSigned_singleton_le b

/-- Whatever the bytes are, the address is made of four signed bytes. -/
theorem deserializeActorpath_ip (replaced : Bytes → String) (source : Bytes) :
    Exec.wp (deserializeActorpath replaced)
      (fun p _ => ∃ ips : List Int, ips ≠ [] ∧ (∀ v ∈ ips, v ≤ 127) ∧ p.ip = mkString ips)
      (fun _ _ => True) source := by
  unfold deserializeActorpath
  simp only [Exec.wp_bind]
  refine Exec.wp_mono (readByte_le source) (fun _ s _ => ?_) (fun _ _ h => h)
  refine Exec.wp_mono (readByte_le s) (fun v₁ s h₁ => ?_) (fun _ _ h => h)
  refine Exec.wp_mono (readByte_le s) (fun v₂ s h₂ => ?_) (fun _ _ h => h)
  refine Exec.wp_mono (readByte_le s) (fun v₃ s h₃ => ?_) (fun _ _ h => h)
  refine Exec.wp_mono (readByte_le s) (fun v₄ s h₄ => ?_) (fun _ _ h => h)
  have hips : ∀ v ∈ [v₁, v₂, v₃, v₄], v ≤ 127 := by
    simp only [List.forall_mem_cons]
    exact ⟨h₁, h₂, h₃, h₄, by simp⟩
  refine Exec.wp_intro (fun port s _ => ?_) (fun _ _ _ => trivial)
  rw [Exec.wp_ite]
  constructor
  · intro _
    simp only [Exec.wp_bind]
    refine Exec.wp_intro (fun len s _ => ?_) (fun _ _ _ => trivial)
    exact Exec.wp_intro (fun target s _ => ⟨_, by simp, hips, rfl⟩) (fun _ _ _ => trivial)
  · intro _
    rw [Exec.wp_bind]
    exact Exec.wp_intro (fun data s _ => ⟨_, by simp, hips, rfl⟩) (fun _ _ _ => trivial)

/-- High octets are not read back. -/
theorem readPaths_low (replaced : Bytes → String) {source rest : Bytes} {src dst : KompactAkkaPath}
    {srcOctets dstOctets : List Nat} (hsrc : Addressed src srcOctets)
    (hdst : Addressed dst dstOctets) (h : readPaths replaced source = .ok (src, dst) rest) :
    ∀ o ∈ srcOctets ++ dstOctets, o ≤ 127 := by
  have hwp : Exec.wp (readPaths replaced)
      (fun ps _ => (∃ ips : List Int, ips ≠ [] ∧ (∀ v ∈ ips, v ≤ 127) ∧ ps.1.ip = mkString ips) ∧
        ∃ ips : List Int, ips ≠ [] ∧ (∀ v ∈ ips, v ≤ 127) ∧ ps.2.ip = mkString ips)
      (fun _ _ => True) source := by
    unfold readPaths
    simp only [Exec.wp_bind]
    refine Exec.wp_intro (fun _ s _ => ?_) (fun _ _ _ => trivial)
    refine Exec.wp_mono (deserializeActorpath_ip replaced s) (fun p s hp => ?_) (fun _ _ h => h)
    exact Exec.wp_mono (deserializeActorpath_ip replaced s) (fun q s hq => ⟨hp, hq⟩)
      (fun _ _ h => h)
  obtain ⟨⟨ips, hne, hips, hip⟩, ⟨ips', hne', hips', hip'⟩⟩ := Exec.wp_ok hwp h
  intro o ho
  rcases List.mem_append.mp ho with ho | ho
  · exact mkString_eq_dotted hips hne (List.ne_nil_of_mem ho) (hip.symm.trans hsrc.ip) o ho
  · exact mkString_eq_dotted hips' hne' (List.ne_nil_of_mem ho) (hip'.symm.trans hdst.ip) o ho

/-! ## Frames -/

section frames

variable {M : Type} (gen : Generated M) (replaced : Bytes → String)

/-- The bytes in front of the paths. -/
def headBytes (payloadLen : Nat) : Bytes :=
  toBeSigned 4 magicNumber ++ (toBeSigned 1 frameType ++ (toBeSigned 4 1 ++ (toBeSigned 4 seqNum ++
    toBeSigned 4 payloadLen)))

/-- The bytes of the paths and of the serialiser's identifier. -/
def routeBytes (src dst : KompactAkkaPath) (srcOctets dstOctets : List Nat) : Bytes :=
  pathBytes src srcOctets ++ (pathBytes dst dstOctets ++ toBeSigned 8 protoSerIdent)

/-- `payloadLen` of an envelope. -/
def payloadLen (env : KompactAkkaEnvelope M) (src dst : KompactAkkaPath) : Nat :=
  sizeOfNamedPath src + sizeOfNamedPath dst + 8 + (gen.toByteArray env).length

/-- The number of bytes that an envelope takes behind the header. -/
def payloadSize (env : KompactAkkaEnvelope M) (src dst : KompactAkkaPath) : Nat :=
  26 + (getBytes src.path).length + (getBytes dst.path).length + (gen.toByteArray env).length

variable {gen} {env : KompactAkkaEnvelope M} {src dst : KompactAkkaPath}
  {srcOctets dstOctets : List Nat}

theorem length_headBytes (n : Nat) : (headBytes n).length = 17 := by
  simp [headBytes]

theorem length_routeBytes (hsrc : Addressed src srcOctets) (hdst : Addressed dst dstOctets) :
    (routeBytes src dst srcOctets dstOctets).length =
      26 + (getBytes src.path).length + (getBytes dst.path).length := by
  simp only [routeBytes, List.length_append, length_pathBytes hsrc, length_pathBytes hdst,
    length_toBeSigned]
  omega

/-- All but the payload is written in any case. -/
theorem encodeBody_route (hs : env.src = some src) (hd : env.dst = some dst)
    (hsrc : Addressed src srcOctets) (hdst : Addressed dst dstOctets)
    (hlow : ∀ o ∈ srcOctets ++ dstOctets, o ≤ 127) :
    encodeBody gen env [] = writeBytes (gen.toByteArray env)
      (headBytes (payloadLen gen env src dst) ++ routeBytes src dst srcOctets dstOctets) := by
  have hlen := length_routeBytes hsrc hdst
  have hpath := hsrc.path
  have hpath' := hdst.path
  have hwrites : Writes maxCapacity (do
      writeInt magicNumber
      writeByte frameType
      writeInt 1
      writeInt seqNum
      writeInt (payloadLen gen env src dst)
      serializeActorpath src
      serializeActorpath dst
      writeLong protoSerIdent)
      (headBytes (payloadLen gen env src dst) ++ routeBytes src dst srcOctets dstOctets) := by
    unfold headBytes routeBytes
    simp only [List.append_assoc]
    exact (writes_push _ _).seq ((writes_push _ _).seq ((writes_push _ _).seq ((writes_push _ _).seq
      ((writes_push _ _).seq ((writes_path hsrc fun o ho => hlow o (by simp [ho])).seq
        ((writes_path hdst fun o ho => hlow o (by simp [ho])).seq (writes_push _ _)))))))
  have hfits : ([] : Bytes).length + (headBytes (payloadLen gen env src dst) ++
      routeBytes src dst srcOctets dstOctets).length ≤ maxCapacity := by
    rw [List.length_append, length_headBytes, hlen, maxCapacity]
    simp only [List.length_nil]
    omega
  have hrun := hwrites.next hfits (y := fun _ => writeBytes (gen.toByteArray env))
  rw [List.nil_append] at hrun
  rw [← hrun]
  unfold encodeBody
  rw [hs, hd]
  simp only [bind_assoc]
  rfl

/-- What is in the buffer when `encode` returns. -/
theorem encode_eq (gen : Generated M) (hs : env.src = some src) (hd : env.dst = some dst)
    (hsrc : Addressed src srcOctets) (hdst : Addressed dst dstOctets)
    (hlow : ∀ o ∈ srcOctets ++ dstOctets, o ≤ 127) :
    encode gen env = headBytes (payloadLen gen env src dst) ++
      (routeBytes src dst srcOctets dstOctets ++
        if 17 + payloadSize gen env src dst ≤ maxCapacity then gen.toByteArray env else []) := by
  rw [encode, encodeBody_route hs hd hsrc hdst hlow, writeBytes, push, List.length_append,
    length_headBytes, length_routeBytes hsrc hdst, ← List.append_assoc]
  have hsum : 17 + (26 + (getBytes src.path).length + (getBytes dst.path).length) +
      (gen.toByteArray env).length = 17 + payloadSize gen env src dst := by
    rw [payloadSize]
    omega
  rw [hsum]
  split_ifs
  · rfl
  · rw [List.append_nil]
    rfl

/-- The header is read back, with the field that the encoder has put there. -/
theorem reads_header (len n : Nat) :
    Reads readHeader ⟨ofBeSigned (toBe 4 len), ofBeSigned (toBeSigned 4 magicNumber),
      ofBeSigned (toBeSigned 1 frameType), ofBeSigned (toBeSigned 4 1),
      ofBeSigned (toBeSigned 4 seqNum), ofBeSigned (toBeSigned 4 n)⟩
      (toBe 4 len ++ headBytes n) := by
  unfold readHeader headBytes
  have hint : ∀ bs : Bytes, bs.length = 4 → Reads readInt (ofBeSigned bs) bs :=
    fun bs h => reads_signed _ 4 h
  exact (hint _ (by simp)).bind ((hint _ (by simp)).bind ((reads_signed _ 1 (by simp)).bind
    ((hint _ (by simp)).bind ((hint _ (by simp)).bind ((hint _ (by simp)).bind_pure _)))))

/-- The length field of a frame is as large as an `Int` of the sizes. -/
theorem readHeader_frame (tail : Bytes) (n : Nat) :
    ∃ h : Header, readHeader (prepend (headBytes n ++ tail)) = .ok h tail ∧
      h.payloadLen = ofBeSigned (toBeSigned 4 n) := by
  have hread := reads_header ((headBytes n ++ tail).length + 4) n tail
  rw [List.append_assoc] at hread
  exact ⟨_, hread, rfl⟩

theorem ofBeSigned_length {n : Nat} (h : n < 2 ^ 32) :
    ofBeSigned (toBeSigned 4 n) = if n < 2 ^ 31 then (n : Int) else (n : Int) - 2 ^ 32 := by
  have hlt : n < 256 ^ 4 := by omega
  rw [toBeSigned_natCast hlt, ofBeSigned, ofBe_toBe hlt, length_toBe]
  split_ifs <;> omega

theorem payloadLen_eq :
    payloadLen gen env src dst =
      26 + utf16Length src.path + utf16Length dst.path + (gen.toByteArray env).length := by
  unfold payloadLen sizeOfNamedPath
  omega

/-- The length field is right exactly when both paths are ASCII and nothing was left out. -/
theorem payloadLen_eq_iff (gen : Generated M) (env : KompactAkkaEnvelope M)
    (hsrc : Addressed src srcOctets) (hdst : Addressed dst dstOctets) :
    ofBeSigned (toBeSigned 4 (payloadLen gen env src dst)) =
        ((routeBytes src dst srcOctets dstOctets ++
          if 17 + payloadSize gen env src dst ≤ maxCapacity then gen.toByteArray env
          else []).length :
            Int) ↔
      Ascii src.path ∧ Ascii dst.path ∧ 17 + payloadSize gen env src dst ≤ maxCapacity := by
  have harray := gen.isArray env
  have hle := utf16Length_le src.path
  have hle' := utf16Length_le dst.path
  have hpath := hsrc.path
  have hpath' := hdst.path
  rw [← utf16Length_eq_iff, ← utf16Length_eq_iff, List.length_append, length_routeBytes hsrc hdst,
    payloadLen_eq]
  unfold payloadSize
  unfold maxCapacity at harray ⊢
  rw [ofBeSigned_length (by omega)]
  split_ifs with hint hfits
  · push_cast
    omega
  · simp only [List.length_nil]
    push_cast
    omega
  · push_cast
    omega
  · simp only [List.length_nil]
    push_cast
    omega

/-- **A frame goes round**: the decoder emits the envelope and nothing else, the paths of the header
are those of the envelope, and the length field counts the bytes behind it. -/
def RoundTrips (gen : Generated M) (replaced : Bytes → String) (env : KompactAkkaEnvelope M)
    (src dst : KompactAkkaPath) : Prop :=
  decode gen replaced (frame gen env) = [env] ∧
    (∃ rest, readPaths replaced (frame gen env) = .ok (src, dst) rest) ∧
    ∃ h rest, readHeader (frame gen env) = .ok h rest ∧ h.payloadLen = (rest.length : Int)

/-- Both paths are read back from a frame. -/
theorem reads_paths (hsrc : Addressed src srcOctets) (hdst : Addressed dst dstOctets)
    (hlow : ∀ o ∈ srcOctets ++ dstOctets, o ≤ 127) (hascii : Ascii src.path)
    (hascii' : Ascii dst.path) (len n : Nat) :
    Reads (readPaths replaced) (src, dst)
      ((toBe 4 len ++ headBytes n) ++ (pathBytes src srcOctets ++ pathBytes dst dstOctets)) := by
  have hs := reads_path replaced hsrc (fun o ho => hlow o (by simp [ho])) hascii
  have hd := reads_path replaced hdst (fun o ho => hlow o (by simp [ho])) hascii'
  exact (reads_header len n).bind (hs.bind (hd.bind_pure _))

variable (hs : env.src = some src) (hd : env.dst = some dst)
  (hsrc : Addressed src srcOctets) (hdst : Addressed dst dstOctets)

include hs hd hsrc hdst

/-- The address of the header and its length field tell the frames that do not go round. -/
theorem low_ascii_of_roundTrips (h : RoundTrips gen replaced env src dst) :
    (∀ o ∈ srcOctets ++ dstOctets, o ≤ 127) ∧ Ascii src.path ∧ Ascii dst.path ∧
      17 + payloadSize gen env src dst ≤ maxCapacity := by
  obtain ⟨-, ⟨rest, hpaths⟩, h, rest', hheader, hlen⟩ := h
  have hlow := readPaths_low replaced hsrc hdst hpaths
  refine ⟨hlow, (payloadLen_eq_iff gen env hsrc hdst).mp ?_⟩
  rw [frame, encode_eq gen hs hd hsrc hdst hlow] at hheader
  obtain ⟨h', hread, hpayload⟩ := readHeader_frame (routeBytes src dst srcOctets dstOctets ++
    if 17 + payloadSize gen env src dst ≤ maxCapacity then gen.toByteArray env else [])
    (payloadLen gen env src dst)
  rw [hread, EStateM.Result.ok.injEq] at hheader
  obtain ⟨rfl, rfl⟩ := hheader
  rw [← hpayload, hlen]

/-- The other frames go round. -/
theorem roundTrips_of_low_ascii (hparse : gen.parseFrom (gen.toByteArray env) = .ok env)
    (hlow : ∀ o ∈ srcOctets ++ dstOctets, o ≤ 127) (hascii : Ascii src.path)
    (hascii' : Ascii dst.path) (hfits : 17 + payloadSize gen env src dst ≤ maxCapacity) :
    RoundTrips gen replaced env src dst := by
  have hlen := (payloadLen_eq_iff gen env hsrc hdst).mpr ⟨hascii, hascii', hfits⟩
  have hencode := encode_eq gen hs hd hsrc hdst hlow
  rw [if_pos hfits] at hlen hencode
  have hframe : frame gen env = prepend (headBytes (payloadLen gen env src dst) ++
      (routeBytes src dst srcOctets dstOctets ++ gen.toByteArray env)) := by
    rw [frame, hencode]
  have hpaths : readPaths replaced (frame gen env) =
      .ok (src, dst) (toBeSigned 8 protoSerIdent ++ gen.toByteArray env) := by
    have hread := reads_paths replaced hsrc hdst hlow hascii hascii'
      ((headBytes (payloadLen gen env src dst) ++ (routeBytes src dst srcOctets dstOctets ++
        gen.toByteArray env)).length + 4) (payloadLen gen env src dst)
      (toBeSigned 8 protoSerIdent ++ gen.toByteArray env)
    rw [hframe, prepend, ← hread]
    simp only [routeBytes, List.append_assoc]
  refine ⟨?_, ⟨_, hpaths⟩, ?_⟩
  · have hserIdent : Reads readLong (ofBeSigned (toBeSigned 8 protoSerIdent))
        (toBeSigned 8 protoSerIdent) := reads_signed _ 8 (by simp)
    have harray : readBytes (gen.toByteArray env).length (gen.toByteArray env) =
        .ok (gen.toByteArray env) [] := by
      have hread := reads_pull Exception.indexOutOfBounds (gen.toByteArray env) []
      rwa [List.append_nil] at hread
    have hbody : decodeBody gen replaced (frame gen env) = .ok env [] := by
      unfold decodeBody
      rw [Exec.bind_ok hpaths, Exec.bind_ok (hserIdent (gen.toByteArray env))]
      show (readBytes (gen.toByteArray env).length >>= _) (gen.toByteArray env) = _
      rw [Exec.bind_ok harray, hparse]
      rfl
    rw [decode, hbody]
  · obtain ⟨h, hread, hpayload⟩ := readHeader_frame
      (routeBytes src dst srcOctets dstOctets ++ gen.toByteArray env) (payloadLen gen env src dst)
    rw [hframe]
    exact ⟨h, _, hread, hpayload.trans hlen⟩

omit hs hd hsrc hdst

/-- **When frames go round.** For every envelope with two addressed paths: exactly when no octet of
the addresses is above 127, both paths are ASCII, and the frame fits into a buffer. -/
theorem frame_round_trip_iff (gen : Generated M) (replaced : Bytes → String)
    (env : KompactAkkaEnvelope M) (src dst : KompactAkkaPath) (srcOctets dstOctets : List Nat)
    (hs : env.src = some src) (hd : env.dst = some dst)
    (hsrc : Addressed src srcOctets) (hdst : Addressed dst dstOctets)
    (hparse : gen.parseFrom (gen.toByteArray env) = .ok env) :
    RoundTrips gen replaced env src dst ↔
      (∀ o ∈ srcOctets ++ dstOctets, o ≤ 127) ∧ Ascii src.path ∧ Ascii dst.path ∧
        17 + payloadSize gen env src dst ≤ maxCapacity := by
  constructor
  · exact low_ascii_of_roundTrips replaced hs hd hsrc hdst
  · rintro ⟨hlow, hascii, hascii', hfits⟩
    exact roundTrips_of_low_ascii replaced hs hd hsrc hdst hparse hlow hascii hascii' hfits

end frames

/-! ## Envelopes without a message -/

/-- The protobuf encoding of a path. -/
def akkaPath (p : KompactAkkaPath) : Bytes :=
  [WireField.mk 1 (.len (getBytes p.path)), ⟨2, .len (getBytes p.ip)⟩,
    ⟨3, .varint p.port.toNat⟩].flatMap WireField.encode

/-- Read a path. -/
def readAkkaPath (bs : Bytes) : Except String KompactAkkaPath :=
  match readAll WireField.decode bs.length bs with
  | .ok [⟨1, .len path⟩, ⟨2, .len ip⟩, ⟨3, .varint port⟩] =>
    .ok ⟨toStringUtf8 (fun _ => "") path, toStringUtf8 (fun _ => "") ip, port⟩
  | .ok _ => .error "invalid tag"
  | .error e => .error e

/-- The protobuf encoding of an envelope with two paths and no message. -/
def akkaEnvelope (env : KompactAkkaEnvelope Unit) : Bytes :=
  match env.src, env.dst with
  | some src, some dst =>
    [WireField.mk 1 (.len (akkaPath src)), ⟨2, .len (akkaPath dst)⟩].flatMap WireField.encode
  | _, _ => []

/-- The protobuf code on envelopes with two paths and no message; there is no larger array. -/
def addressing : Generated Unit where
  toByteArray env :=
    if (akkaEnvelope env).length ≤ maxCapacity then akkaEnvelope env else []
  parseFrom bs :=
    match readAll WireField.decode bs.length bs with
    | .ok [⟨1, .len src⟩, ⟨2, .len dst⟩] => do
      let src ← readAkkaPath src
      let dst ← readAkkaPath dst
      return ⟨some src, some dst, none⟩
    | .ok _ => .error "invalid tag"
    | .error e => .error e
  isArray env := by
    split_ifs with h
    · exact h
    · exact Nat.zero_le _

theorem readAkkaPath_akkaPath {p : KompactAkkaPath} (h : 0 ≤ p.port) :
    readAkkaPath (akkaPath p) = .ok p := by
  unfold readAkkaPath akkaPath
  rw [WireField.readAll_encode]
  simp only [toStringUtf8_getBytes, Int.toNat_of_nonneg h]

theorem addressing_parseFrom {src dst : KompactAkkaPath} (hsrc : 0 ≤ src.port) (hdst : 0 ≤ dst.port)
    (h : (akkaEnvelope ⟨some src, some dst, none⟩).length ≤ maxCapacity) :
    addressing.parseFrom (addressing.toByteArray ⟨some src, some dst, none⟩) =
      .ok ⟨some src, some dst, none⟩ := by
  unfold addressing
  simp only
  rw [if_pos h]
  unfold akkaEnvelope
  simp only [WireField.readAll_encode, readAkkaPath_akkaPath hsrc, readAkkaPath_akkaPath hdst]
  rfl

/-- A path of a local executor. -/
theorem addressed_local {p : KompactAkkaPath} (hip : p.ip = dotted [127, 0, 0, 1])
    (hport : 0 ≤ p.port ∧ p.port ≤ 65535) (hpath : (getBytes p.path).length ≤ 65535) :
    Addressed p [127, 0, 0, 1] := ⟨hip, rfl, by decide, hport, hpath⟩

/-- Two executors on one machine reach each other. -/
theorem frame_round_trip_iff_local :
    RoundTrips addressing (fun _ => "")
      ⟨some ⟨"executor", dotted [127, 0, 0, 1], 2000⟩,
        some ⟨"executor", dotted [127, 0, 0, 1], 2020⟩, none⟩
      ⟨"executor", dotted [127, 0, 0, 1], 2000⟩ ⟨"executor", dotted [127, 0, 0, 1], 2020⟩ := by
  refine (frame_round_trip_iff addressing _ _ _ _ [127, 0, 0, 1] [127, 0, 0, 1] rfl rfl
    ?_ ?_ ?_).mpr ⟨by decide, ?_, ?_, ?_⟩
  · exact addressed_local rfl (by decide) (by decide)
  · exact addressed_local rfl (by decide) (by decide)
  · exact addressing_parseFrom (by decide) (by decide) (by decide)
  · simp [Ascii]
  · simp [Ascii]
  · decide

/-- An executor on the local machine. -/
def executor : KompactAkkaPath := ⟨"executor", dotted [127, 0, 0, 1], 2000⟩

/-- An executor behind a high octet. -/
def remoteExecutor : KompactAkkaPath := ⟨"executor", dotted [10, 0, 0, 200], 2020⟩

/-- An executor with an umlaut in its name. -/
def namedExecutor : KompactAkkaPath := ⟨"ä", dotted [127, 0, 0, 1], 2020⟩

theorem addressed_remote : Addressed remoteExecutor [10, 0, 0, 200] :=
  ⟨rfl, rfl, by decide, by decide, by decide⟩

/-- **Lost and miscounted frames.** A frame to 10.0.0.200 is written only in part and decoded to
nothing, and the length field of a frame to a path with an umlaut is too small. -/
theorem frame_round_trip_lost :
    (Addressed executor [127, 0, 0, 1] ∧ Addressed remoteExecutor [10, 0, 0, 200] ∧
        decode addressing (fun _ => "")
          (frame addressing ⟨some executor, some remoteExecutor, none⟩) = [] ∧
        ¬ RoundTrips addressing (fun _ => "") ⟨some executor, some remoteExecutor, none⟩ executor
          remoteExecutor) ∧
      Addressed namedExecutor [127, 0, 0, 1] ∧
        ¬ RoundTrips addressing (fun _ => "") ⟨some executor, some namedExecutor, none⟩ executor
          namedExecutor := by
  have hsrc : Addressed executor [127, 0, 0, 1] := addressed_local rfl (by decide) (by decide)
  have hname : Addressed namedExecutor [127, 0, 0, 1] := addressed_local rfl (by decide) (by decide)
  refine ⟨⟨hsrc, addressed_remote, by decide +kernel, fun h => ?_⟩, hname, fun h => ?_⟩
  · have hlow := (low_ascii_of_roundTrips _ rfl rfl hsrc addressed_remote h).1 200 (by simp)
    omega
  · have hascii := (low_ascii_of_roundTrips _ rfl rfl hsrc hname h).2.2.1
    exact absurd (hascii 'ä' (by decide)) (by decide)

end Arcon.Kompact
