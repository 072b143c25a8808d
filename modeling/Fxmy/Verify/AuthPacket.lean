import Fxmy.Verify.Frames
import Fxmy.Verify.PacketReads

/-!
# The auth packet

`AuthPacket` is a well-formed packet of a client that connects with a database; `bytes` is how it
lies in the transfer buffer. The numbers at its front are taken as they are (`u32At_flags`,
`u32At_maxPacketSize`). The database name is not looked for behind the scramble but at the start of
the packet, so it is taken only where the packet happens to spell it there (`parsed_iff`).
-/

namespace Fxmy

/-- A client's auth packet with `CLIENT_CONNECT_WITH_DB`. -/
structure AuthPacket where
  clientFlags : UInt32
  maxPacketSize : UInt32
  charset : UInt8
  filler : List UInt8
  user : List UInt8
  scramble : List UInt8
  database : List Char
  connect_with_db : clientFlags &&& CLIENT_CONNECT_WITH_DB ≠ 0
  length_filler : filler.length = 23
  user_ne_nul : ∀ b ∈ user, b ≠ 0
  length_scramble : scramble.length < 251
  database_bmp : ∀ c ∈ database, c.toNat ≠ 0 ∧ c.toNat < 0x10000

namespace AuthPacket

/-- A 32-bit value in a packet, lowest byte first. -/
def u32Bytes (x : UInt32) : List UInt8 :=
  [x.toUInt8, (x >>> 8).toUInt8, (x >>> 16).toUInt8, (x >>> 24).toUInt8]

/-- The packet on the wire. -/
def bytes (auth : AuthPacket) : List UInt8 :=
  u32Bytes auth.clientFlags ++ u32Bytes auth.maxPacketSize ++ [auth.charset] ++ auth.filler ++
    auth.user ++ [0] ++ [auth.scramble.length.toUInt8] ++ auth.scramble ++
    auth.database.flatMap String.utf8EncodeChar ++ [0]

/-- The name as `conn->database` should hold it, without the terminator. -/
def name (auth : AuthPacket) : List FxmyChar := auth.database.map C

/-- The connection's record holds the packet's fields. -/
structure Taken (auth : AuthPacket) (conn : Connection) : Prop where
  clientFlags : conn.clientFlags = auth.clientFlags
  maxPacketSize : conn.maxPacketSize = auth.maxPacketSize
  charset : conn.charset = auth.charset.toUInt32
  database : ∃ block, conn.database = some block ∧ stringText block = .ok auth.name

/-- `fxmy_parse_auth_packet` gets through the packet to `fxmy_connect`, with the fields taken, and
the fields are still there whenever it returns. -/
def Parsed (env : Env) (w : World) (c : Nat) (auth : AuthPacket) : Prop :=
  (∃ w₁, parseAuth env (w.withPacket auth.bytes c) = .ok true w₁ ∧ auth.Taken w₁.conn) ∧
    ∀ rv w₂, parseAuthPacket env (w.withPacket auth.bytes c) = .ok rv w₂ → auth.Taken w₂.conn

/-- The packet's bytes up to its first zero byte decode completely, that byte being swallowed by
the last character, and what they spell before the first NUL character is the database name. -/
def SpelledAtStart (build : Build) (auth : AuthPacket) : Prop :=
  ∃ v p cs, FirstNul auth.bytes 0 v ∧ Decoded build (auth.bytes ++ [0]) (v + 1) p cs ∧ v + 1 ≤ p ∧
    cs.takeWhile (· ≠ nul) = auth.name

/-! ## The layout -/

theorem u32_join (x : UInt32) : x.toUInt8.toUInt32 ||| ((x >>> 8).toUInt8.toUInt32 <<< 8) |||
    ((x >>> 16).toUInt8.toUInt32 <<< 16) ||| ((x >>> 24).toUInt8.toUInt32 <<< 24) = x := by
  have h32 (n i : Nat) : (n % 4294967296).testBit i = (decide (i < 32) && n.testBit i) :=
    Nat.testBit_mod_two_pow n 32 i
  refine UInt32.toNat_inj.mp (Nat.eq_of_testBit_eq fun i => ?_)
  simp only [UInt32.toNat_or, UInt32.toNat_shiftLeft, UInt8.toNat_toUInt32, UInt32.toNat_toUInt8,
    UInt32.toNat_shiftRight, Nat.testBit_or, Nat.testBit_shiftLeft, Nat.testBit_shiftRight,
    Nat.testBit_mod_two_pow, h32, UInt32.reduceToNat, Nat.reduceMod]
  by_cases hi : i < 32
  · -- Each bit comes from the byte it is in.
    have hcases : i < 8 ∨ (8 ≤ i ∧ i < 16) ∨ (16 ≤ i ∧ i < 24) ∨ 24 ≤ i := by omega
    rcases hcases with h | ⟨h, h'⟩ | ⟨h, h'⟩ | h
    · simp [h, show ¬ 8 ≤ i by omega, show ¬ 16 ≤ i by omega, show ¬ 24 ≤ i by omega]
    · simp [hi, h, Nat.add_sub_cancel' h, show ¬ i < 8 by omega, show i - 8 < 8 by omega,
        show ¬ 16 ≤ i by omega, show ¬ 24 ≤ i by omega]
    · simp [hi, h, Nat.add_sub_cancel' h, show ¬ i < 8 by omega, show ¬ i - 8 < 8 by omega,
        show i - 16 < 8 by omega, show ¬ 24 ≤ i by omega]
    · simp [hi, h, Nat.add_sub_cancel' h, show ¬ i < 8 by omega, show ¬ i - 8 < 8 by omega,
        show ¬ i - 16 < 8 by omega, show i - 24 < 8 by omega]
  · have hpow : x.toNat < 2 ^ i :=
      Nat.lt_of_lt_of_le x.toNat_lt (Nat.pow_le_pow_right (by decide) (Nat.le_of_not_lt hi))
    simp [hi, Nat.testBit_lt_two_pow hpow]

variable (auth : AuthPacket)

theorem u32At_flags : u32At auth.bytes 0 = auth.clientFlags := u32_join auth.clientFlags

theorem u32At_maxPacketSize : u32At auth.bytes 4 = auth.maxPacketSize := u32_join auth.maxPacketSize

theorem getD_charset : auth.bytes.getD 8 0 = auth.charset := rfl

/-- The packet from the user name on. -/
theorem drop_user : auth.bytes.drop 32 = auth.user ++ 0 :: auth.scramble.length.toUInt8 ::
    (auth.scramble ++ (auth.database.flatMap String.utf8EncodeChar ++ [0])) := by
  have hfront : (u32Bytes auth.clientFlags ++ u32Bytes auth.maxPacketSize ++ [auth.charset] ++
      auth.filler).length = 32 := by
    simp [u32Bytes, auth.length_filler]
  have hbytes : auth.bytes = (u32Bytes auth.clientFlags ++ u32Bytes auth.maxPacketSize ++
      [auth.charset] ++ auth.filler) ++ (auth.user ++ 0 :: auth.scramble.length.toUInt8 ::
        (auth.scramble ++ (auth.database.flatMap String.utf8EncodeChar ++ [0]))) := by
    simp [bytes]
  rw [hbytes, List.drop_left' hfront]

theorem getD_drop (l : List UInt8) (m i : Nat) : l.getD (m + i) 0 = (l.drop m).getD i 0 := by
  simp [List.getD_eq_getElem?_getD]

theorem length_bytes : 32 + auth.user.length + 2 + auth.scramble.length + 1 ≤ auth.bytes.length := by
  have hdrop := congrArg List.length auth.drop_user
  simp only [List.length_drop, List.length_append, List.length_cons, List.length_nil] at hdrop
  omega

theorem firstNul_user : FirstNul auth.bytes 32 (32 + auth.user.length) := by
  have hlen := auth.length_bytes
  refine ⟨Nat.le_add_right _ _, by omega, ?_, ?_⟩
  · rw [getD_drop, drop_user]
    simp
  · intro j hj hlt
    obtain ⟨i, rfl⟩ := Nat.exists_eq_add_of_le hj
    have hi : i < auth.user.length := by omega
    rw [getD_drop, drop_user, List.getD_eq_getElem?_getD, List.getElem?_append_left hi,
      List.getElem?_eq_getElem hi]
    exact auth.user_ne_nul _ (List.getElem_mem hi)

theorem getD_scramble :
    auth.bytes.getD (32 + auth.user.length + 1) 0 = auth.scramble.length.toUInt8 := by
  rw [Nat.add_assoc, getD_drop, drop_user]
  simp [List.getD_eq_getElem?_getD]

/-- The fields at the front are read as the packet has them. -/
theorem parseAuthFields_bytes (c : Nat) : ∃ d, parseAuthFields (received auth.bytes c) =
    .ok (auth.clientFlags, auth.maxPacketSize, auth.charset, received auth.bytes d) := by
  have hlen := auth.length_bytes
  have hscramble := auth.length_scramble
  have hne : ∀ b : UInt8, 251 < b.toNat → auth.scramble.length.toUInt8 ≠ b := by
    rintro b hb rfl
    simp only [Nat.toUInt8_eq, UInt8.toNat_ofNat'] at hb
    omega
  have hextra : lcbExtra auth.scramble.length.toUInt8 = 0 := by
    unfold lcbExtra
    rw [if_neg (hne 254 (by decide)), if_neg (hne 253 (by decide)), if_neg (hne 252 (by decide))]
  have hstep : lcbStep auth.scramble.length.toUInt8 = 1 := by
    unfold lcbStep
    rw [if_neg (hne 254 (by decide)), if_neg (hne 253 (by decide)), if_neg (hne 252 (by decide))]
  rw [parseAuthFields_long c auth.firstNul_user, u32At_flags, u32At_maxPacketSize, getD_charset]
  unfold skipLcs
  rw [readLcb_received, getD_scramble, hextra, hstep, if_neg (by omega), if_neg (by omega)]
  exact ⟨_, rfl⟩

/-! ## The name -/

/-- A walk over a block whose `v`-th byte is zero has one character less than bytes up to there, as
it ends with a character of several bytes. -/
theorem length_of_walk {build : Build} {block : List UInt8} {v p : Nat} {cs : List FxmyChar}
    (hnul : block[v]? = some 0) (h : Decoded build block (v + 1) p cs) (hp : v + 1 ≤ p) :
    cs.length ≤ v := by
  cases h with
  | first => omega
  | @next q w cs h hq hw =>
    have hlen := h.length_le
    have hqv : q ≠ v := by
      rintro rfl
      have hv := (List.getElem?_eq_some_iff.mp hnul).1
      have hzero : block[q] = 0 := (List.getElem?_eq_some_iff.mp hnul).2
      rw [List.drop_eq_getElem_cons hv, hzero, charWidth_zero] at hw
      cases hw
    rw [List.length_append, List.length_singleton]
    omega

/-- The text of a decoded block is what stands before its first NUL character. -/
theorem stringText_decoded {cs : List FxmyChar} {n : Nat} (hn : 0 < n) :
    stringText (cs ++ List.replicate n 0) = .ok (cs.takeWhile (· ≠ nul)) := by
  have hnul : (nul : FxmyChar) = 0 := rfl
  have hmem : (nul : FxmyChar) ∈ cs ++ List.replicate n 0 :=
    List.mem_append_right _ (List.mem_replicate.mpr ⟨by omega, rfl⟩)
  have hzeros : (List.replicate n (0 : FxmyChar)).takeWhile (· ≠ nul) = [] := by
    obtain ⟨m, rfl⟩ := Nat.exists_eq_add_of_lt hn
    simp [List.replicate_succ, hnul]
  unfold stringText
  rw [if_pos hmem, List.takeWhile_append, hzeros]
  split
  · next hall => rw [List.append_nil, (List.takeWhile_prefix _).eq_of_length hall]
  · rfl

theorem parseAuthDatabase_bytes (build : Build) (d : Nat) :
    (∃ block, parseAuthDatabase build (received auth.bytes d) = .ok block ∧
      stringText block = .ok auth.name) ↔ auth.SpelledAtStart build := by
  obtain ⟨v, hv, -⟩ := strlenAt_received auth.bytes d (Nat.zero_le auth.bytes.length)
  have hinside := hv.inside
  have hsize : v + 1 ≤ (auth.bytes ++ [0]).length := by
    rw [List.length_append, List.length_singleton]
    omega
  have hnul : (auth.bytes ++ [0])[v]? = some 0 := by
    rw [packet_getElem? auth.bytes hinside, hv.nul]
  have hroom : v + 1 ≤ (List.replicate (v + 1) (nul : FxmyChar)).length := by simp
  have hdrop : (List.replicate (v + 1) (nul : FxmyChar)).drop (v + 1) = [] := by simp
  rw [parseAuthDatabase_received build d hv]
  unfold SpelledAtStart
  constructor
  · rintro ⟨block, hblock, htext⟩
    obtain ⟨p, cs, h, hp, rfl⟩ := (fstrfromchar_eq_ok_iff hsize hroom).mp hblock
    have hlen := length_of_walk hnul h hp
    rw [hdrop, List.append_nil, stringText_decoded (by omega), Except.ok.injEq] at htext
    exact ⟨v, p, cs, hv, h, hp, htext⟩
  · rintro ⟨u, p, cs, hu, h, hp, hname⟩
    obtain rfl := hu.unique hv
    have hlen := length_of_walk hnul h hp
    refine ⟨_, (fstrfromchar_eq_ok_iff hsize hroom).mpr ⟨p, cs, h, hp, rfl⟩, ?_⟩
    rw [hdrop, List.append_nil, stringText_decoded (by omega), hname]

/-! ## The whole packet -/

/-- Parsing gets to the database name with the numbers taken. -/
theorem parseAuth_bytes (env : Env) (w : World) (c : Nat) : ∃ d w₀,
    w₀.conn.clientFlags = auth.clientFlags ∧ w₀.conn.maxPacketSize = auth.maxPacketSize ∧
      w₀.conn.charset = auth.charset.toUInt32 ∧
      parseAuth env (w.withPacket auth.bytes c) =
        (Prog.stops (parseAuthDatabase env.build (received auth.bytes d)) >>= fun database => do
          Prog.setConn fun conn => { conn with database := some database }
          pure true) w₀ := by
  obtain ⟨d, hfields⟩ := auth.parseAuthFields_bytes c
  have hget : (w.withPacket auth.bytes c).conn.xferBuffer = received auth.bytes c := rfl
  unfold parseAuth
  rw [Exec.bind_get, hget, hfields, Exec.bind_lift_ok]
  dsimp only
  rw [Exec.bind_modify, if_pos auth.connect_with_db, Exec.bind_modify]
  exact ⟨d, _, rfl, rfl, rfl, rfl⟩

/-- Connecting leaves the fields of the packet as they are. -/
theorem Taken.connect {env : Env} {w w' : World} {rv : Int} (h : auth.Taken w.conn)
    (hrun : Fxmy.connect env w = .ok rv w') : auth.Taken w'.conn := by
  have hkeeps : w'.record = w.record := (connect_keeps record_unanswered env).of_ok hrun
  have hfield : ∀ {α : Type} (f : Connection → α), f w'.record = f w.record :=
    fun f => congrArg f hkeeps
  refine ⟨?_, ?_, ?_, ?_⟩
  · exact (hfield Connection.clientFlags).trans h.clientFlags
  · exact (hfield Connection.maxPacketSize).trans h.maxPacketSize
  · exact (hfield Connection.charset).trans h.charset
  · obtain ⟨block, hblock, htext⟩ := h.database
    exact ⟨block, (hfield Connection.database).trans hblock, htext⟩

/-- **A well-formed packet is parsed** exactly if it spells its database name from its first byte
on. -/
theorem parsed_iff (env : Env) (w : World) (c : Nat) :
    auth.Parsed env w c ↔ auth.SpelledAtStart env.build := by
  obtain ⟨d, w₀, hflags, hmax, hcharset, hparse⟩ := auth.parseAuth_bytes env w c
  rw [← auth.parseAuthDatabase_bytes env.build d]
  unfold Parsed parseAuthPacket
  constructor
  · rintro ⟨⟨w₁, hrun, htaken⟩, -⟩
    rw [hparse] at hrun
    obtain ⟨block, hblock, hset⟩ := Exec.bind_lift_eq_ok.mp hrun
    cases hset
    obtain ⟨stored, hstored, htext⟩ := htaken.database
    cases hstored
    exact ⟨block, hblock, htext⟩
  · rintro ⟨block, hblock, htext⟩
    rw [hblock, Exec.bind_lift_ok, Exec.bind_modify] at hparse
    have htaken : auth.Taken { w₀.conn with database := some block } :=
      ⟨hflags, hmax, hcharset, block, rfl, htext⟩
    refine ⟨⟨_, hparse, htaken⟩, fun rv w₂ hrun => ?_⟩
    rw [Exec.bind_of_ok hparse] at hrun
    exact Taken.connect auth htaken hrun

/-- A client without capabilities other than the database, called `d`. -/
def plain : AuthPacket where
  clientFlags := CLIENT_CONNECT_WITH_DB
  maxPacketSize := 0
  charset := 0
  filler := List.replicate 23 0
  user := []
  scramble := []
  database := ['d']
  connect_with_db := by decide
  length_filler := rfl
  user_ne_nul := by simp
  length_scramble := by decide
  database_bmp := List.all_iff_forall_prop.mp (by decide)

/-- Its first bytes are 8, 0: the cursor stays at the zero. -/
theorem plain_not_parsed : ¬ ∀ env w c auth, Parsed env w c auth := by
  intro h
  obtain ⟨⟨w₁, hrun, -⟩, -⟩ := h (.benign obliging) (.fresh [] []) 0 plain
  exact nomatch hrun

end AuthPacket

end Fxmy
