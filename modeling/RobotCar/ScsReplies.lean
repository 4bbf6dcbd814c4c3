import RobotCar.ScsFrames

namespace RobotCar
open Concurrent Bytes
set_option autoImplicit true

/-! ### Replies -/

/-- The bytes `FF FF ID LEN ERR ... CHK` with a right checksum. -/
def replyBytes (ID LEN ERR : UInt8) (data : List UInt8) : List UInt8 :=
  let body := ID :: LEN :: ERR :: data
  0xff :: 0xff :: (body ++ [complement body])

/-- A well-formed reply of servo `ID` with these data. -/
def Reply (ID : UInt8) (data bytes : List UInt8) : Prop :=
  ∃ LEN ERR, LEN.toNat = data.length + 2 ∧ bytes = replyBytes ID LEN ERR data

/-- The stream begins with noise, in which `checkHead` can find no head, and a reply. -/
def Arrives (noise reply : List UInt8) (rx : List (Option UInt8)) : Prop :=
  noise.length ≤ 9 ∧ NoDouble 0xff noise ∧ (noise ++ reply).map some <+: rx

/-! ### What the functions read -/

theorem Uart_Read_append (bytes : List UInt8) (rx : List (Option UInt8)) :
    Uart_Read bytes.length (bytes.map some ++ rx) = (some bytes, rx) := by
  induction bytes with
  | nil => rfl
  | cons b bytes ih =>
    rw [List.length_cons, List.map_cons, List.cons_append, Uart_Read, ih]
    rfl

theorem eq_of_Uart_Read {len : Nat} {rx : List (Option UInt8)}
    (h : Uart_Read len rx = (some bytes, rx')) :
    rx = bytes.map some ++ rx' ∧ bytes.length = len := by
  induction len generalizing bytes rx with
  | zero =>
    cases h
    exact ⟨rfl, rfl⟩
  | succ len ih =>
    match rx with
    | [] => cases h
    | none :: rx => cases h
    | some b :: rx =>
      cases hr : Uart_Read len rx with
      | mk found rest =>
        rw [Uart_Read, hr] at h
        obtain ⟨hfound, rfl⟩ := Prod.mk.inj h
        obtain ⟨tail, rfl, rfl⟩ := Option.map_eq_some_iff.1 hfound
        obtain ⟨rfl, rfl⟩ := ih hr
        exact ⟨rfl, rfl⟩

theorem run_readSCS (nLen : Nat) (b : Bus) :
    (readSCS nLen).run b =
      some ((Uart_Read nLen b.rx).1, { b with rx := (Uart_Read nLen b.rx).2 }) :=
  rfl

theorem run_checkHead_loop_succ (n : Nat) (last : UInt8) (b : Bus) :
    (checkHead_loop (n + 1) last).run b =
      match b.rx with
      | some bDat :: rx =>
        if bDat = 0xff ∧ last = 0xff then some (true, { b with rx })
        else (checkHead_loop n bDat).run { b with rx }
      | rx => some (false, { b with rx := rx.tail }) := by
  obtain ⟨w, sent, rx⟩ := b
  rw [checkHead_loop, Task.run_bind, run_readSCS, Option.bind_some]
  match rx with
  | [] => rfl
  | none :: rx => rfl
  | some bDat :: rx =>
    dsimp only [Uart_Read, Option.map]
    split <;> rfl

/-- The first two bytes `0xff` next to each other, after `last` and less than `n` bytes more. -/
def FirstHead (n : Nat) (last : UInt8) (rx rest : List (Option UInt8)) : Prop :=
  ∃ noise : List UInt8, rx = noise.map some ++ some 0xff :: rest ∧ noise.length < n ∧
    NoDouble 0xff (last :: noise) ∧ (last :: noise).getLast? = some 0xff

theorem firstHead_zero {last : UInt8} {rx rest : List (Option UInt8)} :
    ¬FirstHead 0 last rx rest := by
  rintro ⟨noise, -, hlen, -⟩
  exact absurd hlen (Nat.not_lt_zero _)

theorem firstHead_nil {last : UInt8} {rest : List (Option UInt8)} : ¬FirstHead n last [] rest := by
  rintro ⟨noise, hrx, -⟩
  exact absurd hrx.symm (List.append_ne_nil_of_right_ne_nil _ nofun)

theorem firstHead_none {last : UInt8} {rx rest : List (Option UInt8)} :
    ¬FirstHead n last (none :: rx) rest := by
  rintro ⟨noise, hrx, -⟩
  cases noise with
  | nil => cases hrx
  | cons c noise => cases hrx

theorem firstHead_here {rx rest : List (Option UInt8)} :
    FirstHead (n + 1) 0xff (some 0xff :: rx) rest ↔ rx = rest := by
  constructor
  · rintro ⟨noise, hrx, -, hdouble, -⟩
    cases noise with
    | nil =>
      cases hrx
      rfl
    | cons c noise =>
      cases hrx
      exact absurd ⟨rfl, rfl⟩ (noDouble_cons_cons.1 hdouble).1
  · rintro rfl
    exact ⟨[], rfl, Nat.succ_pos n, noDouble_singleton _ _, rfl⟩

theorem firstHead_later {bDat last : UInt8} {rx rest : List (Option UInt8)}
    (h : ¬(bDat = 0xff ∧ last = 0xff)) :
    FirstHead (n + 1) last (some bDat :: rx) rest ↔ FirstHead n bDat rx rest := by
  constructor
  · rintro ⟨noise, hrx, hlen, hdouble, hlast⟩
    cases noise with
    | nil =>
      cases hrx
      exact absurd ⟨rfl, Option.some.inj hlast⟩ h
    | cons c noise =>
      cases hrx
      rw [List.getLast?_cons_cons] at hlast
      exact ⟨noise, rfl, Nat.lt_of_succ_lt_succ hlen, (noDouble_cons_cons.1 hdouble).2, hlast⟩
  · rintro ⟨noise, rfl, hlen, hdouble, hlast⟩
    refine ⟨bDat :: noise, rfl, Nat.succ_lt_succ hlen, ?_, ?_⟩
    · exact noDouble_cons_cons.2 ⟨fun hh => h ⟨hh.2, hh.1⟩, hdouble⟩
    · rw [List.getLast?_cons_cons]
      exact hlast

theorem run_checkHead_loop {n : Nat} {last : UInt8} {b b' : Bus} :
    (checkHead_loop n last).run b = some (true, b') ↔
      b = { b' with rx := b.rx } ∧ FirstHead n last b.rx b'.rx := by
  induction n generalizing last b with
  | zero =>
    rw [checkHead_loop, Task.run_pure]
    exact iff_of_false nofun fun h => firstHead_zero h.2
  | succ n ih =>
    obtain ⟨w, sent, rx⟩ := b
    obtain ⟨w', sent', rx'⟩ := b'
    rw [run_checkHead_loop_succ]
    match rx with
    | [] => exact iff_of_false nofun fun h => firstHead_nil h.2
    | none :: rx => exact iff_of_false nofun fun h => firstHead_none h.2
    | some bDat :: rx =>
      dsimp only
      by_cases h : bDat = 0xff ∧ last = 0xff
      · obtain ⟨rfl, rfl⟩ := h
        rw [if_pos ⟨rfl, rfl⟩, firstHead_here]
        simp only [Option.some.injEq, Prod.mk.injEq, true_and, Bus.mk.injEq, and_true, and_assoc]
      · rw [if_neg h, ih, firstHead_later h]
        simp only [Bus.mk.injEq, and_true]

/-- `checkHead` finds the head that follows at most 9 bytes, if they do not end in half a head. -/
theorem run_checkHead {b b' : Bus} :
    checkHead.run b = some (true, b') ↔
      ∃ noise, b = { b' with rx := (noise ++ [0xff, 0xff]).map some ++ b'.rx } ∧
        noise.length ≤ 9 ∧ NoDouble 0xff (noise ++ [0xff]) := by
  rw [checkHead, run_checkHead_loop]
  have hzero (l : List UInt8) : NoDouble 0xff (0 :: l) ↔ NoDouble 0xff l := by
    cases l with
    | nil => exact iff_of_true (noDouble_singleton _ _) (by decide)
    | cons c l => rw [noDouble_cons_cons, and_iff_right fun h => absurd h.1 (by decide)]
  constructor
  · rintro ⟨hb, noise, hrx, hlen, hdouble, hlast⟩
    rw [hzero] at hdouble
    rcases List.eq_nil_or_concat noise with rfl | ⟨noise, c, rfl⟩
    · exact absurd hlast (by decide)
    · rw [List.concat_eq_append, ← List.cons_append, List.getLast?_concat] at hlast
      obtain rfl : c = 0xff := Option.some.inj hlast
      rw [List.concat_eq_append] at hrx hlen hdouble
      rw [List.length_append, List.length_singleton] at hlen
      refine ⟨noise, ?_, by omega, hdouble⟩
      rw [hb, hrx, List.map_append, List.map_append, List.append_assoc, List.append_assoc]
      rfl
  · rintro ⟨noise, rfl, hlen, hdouble⟩
    refine ⟨rfl, noise ++ [0xff], ?_, ?_, (hzero _).2 hdouble, ?_⟩
    · rw [List.map_append, List.map_append, List.append_assoc, List.append_assoc]
      rfl
    · rw [List.length_append, List.length_singleton]
      omega
    · rw [← List.cons_append, List.getLast?_concat]

theorem run_readSCS_then {α : Type} {f : Option (List UInt8) → Task BusAccess Bus α} {r : α}
    {b b' : Bus} (hnone : ∀ b₁, (f none).run b₁ ≠ some (r, b')) :
    (readSCS nLen >>= f).run b = some (r, b') ↔
      ∃ bytes b₁, bytes.length = nLen ∧ b = { b₁ with rx := bytes.map some ++ b₁.rx } ∧
        (f (some bytes)).run b₁ = some (r, b') := by
  rw [Task.run_bind, run_readSCS, Option.bind_some]
  obtain ⟨w, sent, rx⟩ := b
  constructor
  · intro hrun
    cases hread : Uart_Read nLen rx with
    | mk bytes rest =>
      rw [hread] at hrun
      cases bytes with
      | none => exact absurd hrun (hnone _)
      | some bytes =>
        obtain ⟨rfl, hlen⟩ := eq_of_Uart_Read hread
        exact ⟨bytes, ⟨w, sent, rest⟩, hlen, rfl, hrun⟩
  · rintro ⟨bytes, b₁, rfl, hb, hrun⟩
    obtain ⟨rfl, rfl, rfl⟩ := Bus.mk.inj hb
    rw [Uart_Read_append]
    exact hrun

theorem run_head_then {α : Type} {found : Option (List UInt8) → Task BusAccess Bus α} {a r : α}
    {b b' : Bus} (hr : r ≠ a) (hnone : ∀ b₁, (found none).run b₁ ≠ some (r, b')) :
    (do if ← checkHead then found (← readSCS nLen) else pure a).run b = some (r, b') ↔
      ∃ noise bytes b₁, noise.length ≤ 9 ∧ NoDouble 0xff (noise ++ [0xff]) ∧ bytes.length = nLen ∧
        b = { b₁ with rx := (noise ++ 0xff :: 0xff :: bytes).map some ++ b₁.rx } ∧
        (found (some bytes)).run b₁ = some (r, b') := by
  have hsplit (noise bytes : List UInt8) (rx : List (Option UInt8)) :
      (noise ++ [0xff, 0xff]).map some ++ (bytes.map some ++ rx) =
        (noise ++ 0xff :: 0xff :: bytes).map some ++ rx := by
    simp only [List.map_append, List.map_cons, List.map_nil, List.append_assoc, List.cons_append,
      List.nil_append]
  rw [Task.run_bind, Option.bind_eq_some_iff]
  constructor
  · rintro ⟨⟨head, b₂⟩, hhead, hrun⟩
    cases head with
    | false => exact absurd (Prod.mk.inj (Option.some.inj hrun)).1.symm hr
    | true =>
      obtain ⟨noise, rfl, hlen, hdouble⟩ := run_checkHead.1 hhead
      obtain ⟨bytes, b₁, hbytes, rfl, hfound⟩ := (run_readSCS_then hnone).1 hrun
      exact ⟨noise, bytes, b₁, hlen, hdouble, hbytes, by rw [hsplit], hfound⟩
  · rintro ⟨noise, bytes, b₁, hlen, hdouble, hbytes, rfl, hfound⟩
    refine ⟨(true, { b₁ with rx := bytes.map some ++ b₁.rx }), ?_, ?_⟩
    · exact run_checkHead.2 ⟨noise, by rw [hsplit], hlen, hdouble⟩
    · exact (run_readSCS_then hnone).2 ⟨bytes, b₁, hbytes, rfl, hfound⟩

/-! ### Acknowledgements -/

theorem Ack_tests_eq_one_iff {bytes : List UInt8} :
    Ack_tests ID bytes = 1 ↔ ∃ ERR, bytes = [ID, 2, ERR, complement [ID, 2, ERR]] := by
  have hsum (b₀ b₁ b₂ : UInt8) : complement [b₀, b₁, b₂] = ~~~(b₀ + b₁ + b₂) := by
    simp only [complement, List.sum_cons, List.sum_nil, UInt8.add_zero, UInt8.add_assoc]
  constructor
  · intro h
    unfold Ack_tests at h
    split at h
    · rename_i b₀ b₁ b₂ b₃
      by_cases h₀ : b₀ = ID
      · rw [if_neg (not_not.2 h₀)] at h
        by_cases h₁ : b₁ = 2
        · rw [if_neg (not_not.2 h₁)] at h
          by_cases h₂ : ~~~(b₀ + b₁ + b₂) = b₃
          · exact ⟨b₂, by rw [hsum, ← h₀, ← h₁, h₂]⟩
          · rw [if_pos h₂] at h
            cases h
        · rw [if_pos h₁] at h
          cases h
      · rw [if_pos h₀] at h
        cases h
    · cases h
  · rintro ⟨ERR, rfl⟩
    rw [hsum, Ack_tests, if_neg (not_not.2 rfl), if_neg (not_not.2 rfl), if_neg (not_not.2 rfl)]

theorem reply_nil_iff : Reply ID [] reply ↔
    ∃ ERR, reply = 0xff :: 0xff :: [ID, 2, ERR, complement [ID, 2, ERR]] := by
  constructor
  · rintro ⟨LEN, ERR, hlen, rfl⟩
    obtain rfl : LEN = 2 := UInt8.toNat_inj.1 hlen
    exact ⟨ERR, rfl⟩
  · rintro ⟨ERR, rfl⟩
    exact ⟨2, ERR, rfl, rfl⟩

/-- What `Ack` does with the four bytes after the head. -/
def Ack_found (ID : UInt8) : Option (List UInt8) → Task BusAccess Bus Int
  | some bBuf => pure (Ack_tests ID bBuf)
  | none => pure 0

/-- `Ack` accepts a reply after noise that does not end in half a head. -/
theorem run_Ack_eq_one_iff (hID : ID ≠ 0xfe) (b : Bus) :
    ((Ack ID).run b).map Prod.fst = some 1 ↔
      ∃ noise reply, noise.getLast? ≠ some 0xff ∧ Reply ID [] reply ∧ Arrives noise reply b.rx := by
  have hAck : Ack ID = (do if ← checkHead then Ack_found ID (← readSCS 4) else pure 0) := by
    rw [Ack, if_pos ⟨hID, by decide⟩]
    rfl
  have hnone (b' b₁ : Bus) : (Ack_found ID none).run b₁ ≠ some (1, b') := nofun
  rw [hAck, Option.map_eq_some_iff]
  constructor
  · rintro ⟨⟨r, b'⟩, hrun, hone⟩
    obtain rfl : r = 1 := hone
    obtain ⟨noise, bytes, b₁, hlen, hdouble, -, rfl, hr⟩ :=
      (run_head_then (by decide) (hnone b')).1 hrun
    obtain ⟨hdouble, hlast⟩ := noDouble_concat_iff.1 hdouble
    obtain ⟨ERR, rfl⟩ := Ack_tests_eq_one_iff.1 (Prod.mk.inj (Option.some.inj hr)).1
    exact ⟨noise, _, hlast, reply_nil_iff.2 ⟨ERR, rfl⟩, hlen, hdouble, List.prefix_append _ _⟩
  · rintro ⟨noise, reply, hlast, hreply, hlen, hdouble, rest, hrx⟩
    obtain ⟨ERR, rfl⟩ := reply_nil_iff.1 hreply
    have htests : Ack_tests ID [ID, 2, ERR, complement [ID, 2, ERR]] = 1 :=
      Ack_tests_eq_one_iff.2 ⟨ERR, rfl⟩
    refine ⟨(1, { b with rx := rest }), (run_head_then (by decide) (hnone _)).2
      ⟨noise, [ID, 2, ERR, complement [ID, 2, ERR]], { b with rx := rest }, hlen,
        noDouble_concat_iff.2 ⟨hdouble, hlast⟩, rfl, ?_, ?_⟩, rfl⟩
    · rw [hrx]
    · rw [Ack_found, htests]
      rfl

/-- The first head of a stream says where its second half begins. -/
theorem rest_unique {noise noise' : List UInt8} {rest rest' : List (Option UInt8)}
    (hlen : noise.length ≤ 9) (hdouble : NoDouble 0xff (noise ++ [0xff]))
    (hlen' : noise'.length ≤ 9) (hdouble' : NoDouble 0xff (noise' ++ [0xff]))
    (h : (noise ++ [0xff, 0xff]).map some ++ rest = (noise' ++ [0xff, 0xff]).map some ++ rest') :
    rest = rest' := by
  have hleaves {noise : List UInt8} (rest : List (Option UInt8)) (hlen : noise.length ≤ 9)
      (hdouble : NoDouble 0xff (noise ++ [0xff])) :
      checkHead.run { rx := (noise ++ [0xff, 0xff]).map some ++ rest } =
        some (true, { rx := rest }) := run_checkHead.2 ⟨noise, rfl, hlen, hdouble⟩
  have hrun := hleaves rest hlen hdouble
  rw [h, hleaves rest' hlen' hdouble'] at hrun
  cases hrun
  rfl

/-- A reply after half a head is not accepted. -/
theorem half_head_rejected {noise reply noise' reply' : List UInt8} (hff : ID ≠ 0xff)
    (hlast : noise.getLast? = some 0xff) (hreply : Reply ID [] reply)
    (h : Arrives noise reply rx) (hlast' : noise'.getLast? ≠ some 0xff)
    (hreply' : Reply ID [] reply') : ¬Arrives noise' reply' rx := by
  rintro ⟨hlen', hdouble', rest', hrx'⟩
  obtain ⟨hlen, hdouble, rest, hrx⟩ := h
  obtain ⟨ERR, rfl⟩ := reply_nil_iff.1 hreply
  obtain ⟨ERR', rfl⟩ := reply_nil_iff.1 hreply'
  obtain ⟨init, rfl⟩ := List.getLast?_eq_some_iff.1 hlast
  rw [List.length_append] at hlen
  -- the head is found one byte too early
  have hrest : some 0xff :: [ID, 2, ERR, complement [ID, 2, ERR]].map some ++ rest =
      [ID, 2, ERR', complement [ID, 2, ERR']].map some ++ rest' := by
    apply rest_unique (by omega) hdouble hlen' (noDouble_concat_iff.2 ⟨hdouble', hlast'⟩)
    rw [← hrx'] at hrx
    simpa using hrx
  exact hff (Option.some.inj (List.cons.inj hrest).1).symm

/-- Half a head before the head is all that keeps `Ack` from accepting a reply. -/
theorem Ack_accepts_iff (ID : UInt8) (hID : ID ≠ 0xfe) (hff : ID ≠ 0xff) (b : Bus) :
    (((Ack ID).run b).map Prod.fst = some 1 ↔
        ∃ noise reply, Reply ID [] reply ∧ Arrives noise reply b.rx) ↔
      ¬∃ noise reply, noise.getLast? = some 0xff ∧ Reply ID [] reply ∧
        Arrives noise reply b.rx := by
  rw [run_Ack_eq_one_iff hID]
  constructor
  · rintro h ⟨noise, reply, hlast, hreply, harrives⟩
    obtain ⟨noise', reply', hlast', hreply', harrives'⟩ := h.2 ⟨noise, reply, hreply, harrives⟩
    exact half_head_rejected hff hlast hreply harrives hlast' hreply' harrives'
  · intro h
    constructor
    · rintro ⟨noise, reply, -, hreply, harrives⟩
      exact ⟨noise, reply, hreply, harrives⟩
    · rintro ⟨noise, reply, hreply, harrives⟩
      refine ⟨noise, reply, ?_, hreply, harrives⟩
      intro hlast
      exact h ⟨noise, reply, hlast, hreply, harrives⟩

/-- A reply of servo 1 after a byte of noise. -/
theorem noise_skipped :
    ((Ack 1).run { rx := (7 :: replyBytes 1 2 0 []).map some }).map Prod.fst = some 1 ∧
    ((((Ack 1).run { rx := (7 :: replyBytes 1 2 0 []).map some }).map Prod.fst = some 1 ↔
        ∃ noise reply, Reply 1 [] reply ∧
          Arrives noise reply ((7 :: replyBytes 1 2 0 []).map some)) ↔
      ¬∃ noise reply, noise.getLast? = some 0xff ∧ Reply 1 [] reply ∧
        Arrives noise reply ((7 :: replyBytes 1 2 0 []).map some)) :=
  ⟨by decide +kernel, Ack_accepts_iff 1 (by decide) (by decide) _⟩

/-- The same reply after half a head. -/
theorem half_head_not_skipped :
    ¬(((Ack 1).run { rx := (0xff :: replyBytes 1 2 0 []).map some }).map Prod.fst = some 1 ↔
      ∃ noise reply, Reply 1 [] reply ∧
        Arrives noise reply ((0xff :: replyBytes 1 2 0 []).map some)) := by
  intro h
  have harrives : Arrives [0xff] (replyBytes 1 2 0 []) ((0xff :: replyBytes 1 2 0 []).map some) :=
    ⟨by decide, noDouble_singleton _ _, List.prefix_refl _⟩
  have hone := h.2 ⟨_, _, ⟨2, 0, rfl, rfl⟩, harrives⟩
  exact absurd hone (by decide +kernel)

/-! ### Reads -/

/-- What `Read` does with the three bytes after the head. -/
def Read_found (nLen : UInt8) : Option (List UInt8) → Task BusAccess Bus (Int × List UInt8)
  | none => pure (0, [])
  | some bBuf => do
    match ← readSCS nLen.toNat with
    | none => pure (0, [])
    | some nData =>
      match ← readSCS 1 with
      | some [check] =>
        let calSum := ~~~(nData.foldl (· + ·) (bBuf.foldl (· + ·) 0))
        if calSum ≠ check then pure (0, nData) else pure (nLen.toNat, nData)
      | _ => pure (0, nData)

theorem run_Read_found (h : nLen ≠ 0) {b b' : Bus} :
    (Read_found nLen (some bBuf)).run b = some (((nLen.toNat : Int), data), b') ↔
      data.length = nLen.toNat ∧
        b = { b' with rx := (data ++ [complement (bBuf ++ data)]).map some ++ b'.rx } := by
  have hzero (nData : List UInt8) (b₁ : Bus) :
      ¬(pure (0, nData) : Task BusAccess Bus (Int × List UInt8)).run b₁ =
        some (((nLen.toNat : Int), data), b') := by
    intro heq
    have hz : (0 : Int) = nLen.toNat := (Prod.mk.inj (Prod.mk.inj (Option.some.inj heq)).1).1
    exact h (UInt8.toNat_inj.1 (Int.natCast_eq_zero.1 hz.symm))
  have hsum (nData : List UInt8) :
      ~~~(nData.foldl (· + ·) (bBuf.foldl (· + ·) 0)) = complement (bBuf ++ nData) := by
    rw [foldl_add, foldl_add, UInt8.zero_add, complement, List.sum_append]
  have hsplit (check : UInt8) :
      data.map some ++ ([check].map some ++ b'.rx) = (data ++ [check]).map some ++ b'.rx := by
    rw [List.map_append, List.append_assoc]
  constructor
  · intro hrun
    obtain ⟨nData, b₁, hlen, rfl, hdata⟩ := (run_readSCS_then (hzero [])).1 hrun
    obtain ⟨check, b₂, hone, rfl, hcalSum⟩ := (run_readSCS_then (hzero nData)).1 hdata
    obtain ⟨check, rfl⟩ := List.length_eq_one_iff.1 hone
    dsimp only at hcalSum
    rw [hsum] at hcalSum
    by_cases hcheck : complement (bBuf ++ nData) = check
    · rw [if_neg (not_not.2 hcheck)] at hcalSum
      cases hcalSum
      exact ⟨hlen, by rw [hcheck, ← hsplit]⟩
    · rw [if_pos hcheck] at hcalSum
      exact absurd hcalSum (hzero nData _)
  · rintro ⟨hlen, rfl⟩
    let b₁ : Bus := { b' with rx := [complement (bBuf ++ data)].map some ++ b'.rx }
    refine (run_readSCS_then (hzero [])).2 ⟨data, b₁, hlen, ?_, ?_⟩
    · rw [← hsplit]
    · refine (run_readSCS_then (hzero data)).2 ⟨[complement (bBuf ++ data)], b', rfl, rfl, ?_⟩
      dsimp only
      rw [hsum, if_neg (not_not.2 rfl)]
      rfl

/-- `Read` accepts any bytes after the first head that end in their checksum. -/
theorem run_Read_eq_iff (h : nLen ≠ 0) (ID MemAddr : UInt8) {b : Bus} {data : List UInt8}
    {rest : List (Option UInt8)} :
    (∃ b', (Read ID MemAddr nLen).run b = some (((nLen.toNat : Int), data), b') ∧ b'.rx = rest) ↔
      ∃ noise X LEN ERR, noise.length ≤ 9 ∧ NoDouble 0xff (noise ++ [0xff]) ∧
        data.length = nLen.toNat ∧
        b.rx = (noise ++ replyBytes X LEN ERR data).map some ++ rest := by
  obtain ⟨b₁, hb₁, hrun⟩ : ∃ b₁ : Bus, b₁.rx = b.rx ∧
      (Read ID MemAddr nLen).run b = (Read_reply nLen).run b₁ := by
    refine ⟨Bus.flush (Bus.write _ (Bus.write _ (Bus.write _ b))), ?_, rfl⟩
    rw [Bus.flush]
    split <;> rfl
  have hReply : Read_reply nLen =
      (do if ← checkHead then Read_found nLen (← readSCS 3) else pure (0, [])) := rfl
  have hzero : ((nLen.toNat : Int), data) ≠ (0, []) := by
    intro heq
    exact h (UInt8.toNat_inj.1 (Int.natCast_eq_zero.1 (Prod.mk.inj heq).1))
  have hnone (b' b₁ : Bus) :
      (Read_found nLen none).run b₁ ≠ some (((nLen.toNat : Int), data), b') := by
    intro hrun
    exact hzero (Prod.mk.inj (Option.some.inj hrun)).1.symm
  have hsplit (noise : List UInt8) (X LEN ERR : UInt8) :
      (noise ++ 0xff :: 0xff :: [X, LEN, ERR]).map some ++
          ((data ++ [complement ([X, LEN, ERR] ++ data)]).map some ++ rest) =
        (noise ++ replyBytes X LEN ERR data).map some ++ rest := by
    simp only [replyBytes, List.map_append, List.map_cons, List.map_nil, List.append_assoc,
      List.cons_append, List.nil_append]
  rw [hrun, hReply, ← hb₁]
  constructor
  · rintro ⟨b', hread, rfl⟩
    obtain ⟨noise, bytes, b₂, hlen, hdouble, hbytes, rfl, hfound⟩ :=
      (run_head_then hzero (hnone b')).1 hread
    obtain ⟨X, LEN, ERR, rfl⟩ := List.length_eq_three.1 hbytes
    obtain ⟨hdata, rfl⟩ := (run_Read_found h).1 hfound
    exact ⟨noise, X, LEN, ERR, hlen, hdouble, hdata, hsplit noise X LEN ERR⟩
  · rintro ⟨noise, X, LEN, ERR, hlen, hdouble, hdata, hrx⟩
    refine ⟨{ b₁ with rx := rest }, (run_head_then hzero (hnone _)).2 ⟨noise, [X, LEN, ERR], _,
      hlen, hdouble, rfl, ?_, (run_Read_found h).2 ⟨hdata, rfl⟩⟩, rfl⟩
    rw [hsplit, ← hrx]

/-- The bytes that are read between the two states end in a reply of servo `ID`. -/
def EndsInReply (ID : UInt8) (data : List UInt8) (b b' : Bus) : Prop :=
  ∃ consumed reply, b.rx = consumed ++ b'.rx ∧ Reply ID data reply ∧ reply.map some <:+ consumed

/-- If `nLen` data bytes with their checksum come after the first head, then they are from servo
`ID`, and `nLen` is the length that is announced. -/
def Addressed (ID nLen : UInt8) (rx : List (Option UInt8)) : Prop :=
  ∀ noise X LEN ERR data, noise.getLast? ≠ some 0xff → data.length = nLen.toNat →
    Arrives noise (replyBytes X LEN ERR data) rx → X = ID ∧ LEN.toNat = nLen.toNat + 2

theorem EndsInReply.eq (h : b.rx = (noise ++ replyBytes X LEN ERR data).map some ++ b'.rx)
    (hlen : data'.length = data.length) (hends : EndsInReply ID data' b b') :
    X = ID ∧ LEN.toNat = data.length + 2 ∧ data' = data := by
  obtain ⟨consumed, reply, hrx, ⟨LEN', ERR', hLEN, rfl⟩, hsuffix⟩ := hends
  obtain rfl : consumed = (noise ++ replyBytes X LEN ERR data).map some :=
    List.append_cancel_right (hrx.symm.trans h)
  rw [List.map_append] at hsuffix
  have heq : (replyBytes ID LEN' ERR' data').map some = (replyBytes X LEN ERR data).map some := by
    apply List.IsSuffix.eq_of_length
    · apply List.suffix_of_suffix_length_le hsuffix (List.suffix_append _ _)
      simp [replyBytes, hlen]
    · simp [replyBytes, hlen]
  have hbytes := List.map_injective_iff.2 (Option.some_injective UInt8) heq
  simp only [replyBytes, List.cons_append, List.cons.injEq] at hbytes
  obtain ⟨-, -, hID, rfl, -, hdata⟩ := hbytes
  exact ⟨hID.symm, hlen ▸ hLEN, (List.append_inj hdata hlen).1⟩

theorem endsInReply (h : b.rx = (noise ++ replyBytes X LEN ERR data).map some ++ b'.rx)
    (hX : X = ID) (hlen : LEN.toNat = data.length + 2) : EndsInReply ID data b b' := by
  subst X
  refine ⟨_, _, h, ⟨LEN, ERR, hlen, rfl⟩, ?_⟩
  rw [List.map_append]
  exact List.suffix_append _ _

theorem replies_iff (h : nLen ≠ 0) (ID MemAddr : UInt8) (b : Bus) {α : Type}
    (value : List UInt8 → α) {result : α → Bus → Prop}
    (hresult : ∀ r b', result r b' ↔ ∃ data,
      (Read ID MemAddr nLen).run b = some (((nLen.toNat : Int), data), b') ∧ r = value data) :
    (∀ r b', result r b' → ∃ data, data.length = nLen.toNat ∧ r = value data ∧
      EndsInReply ID data b b') ↔ Addressed ID nLen b.rx := by
  constructor
  · rintro hread noise X LEN ERR data hlast hdata ⟨hlen, hdouble, rest, hrx⟩
    obtain ⟨b', hrun, rfl⟩ := (run_Read_eq_iff h ID MemAddr).2 ⟨noise, X, LEN, ERR, hlen,
      noDouble_concat_iff.2 ⟨hdouble, hlast⟩, hdata, hrx.symm⟩
    obtain ⟨data', hdata', -, hends⟩ := hread _ b' ((hresult _ b').2 ⟨data, hrun, rfl⟩)
    obtain ⟨hX, hLEN, -⟩ := hends.eq hrx.symm (hdata'.trans hdata.symm)
    exact ⟨hX, hdata ▸ hLEN⟩
  · intro haddressed r b' hr
    obtain ⟨data, hrun, rfl⟩ := (hresult r b').1 hr
    obtain ⟨noise, X, LEN, ERR, hlen, hdouble, hdata, hrx⟩ :=
      (run_Read_eq_iff h ID MemAddr).1 ⟨b', hrun, rfl⟩
    obtain ⟨hdouble, hlast⟩ := noDouble_concat_iff.1 hdouble
    obtain ⟨hX, hLEN⟩ := haddressed noise X LEN ERR data hlast hdata ⟨hlen, hdouble, _, hrx.symm⟩
    exact ⟨data, hdata, rfl, endsInReply hrx hX (hLEN.trans (by rw [hdata]))⟩

theorem run_value_iff {t : Task BusAccess Bus (Int × List UInt8)} {value : List UInt8 → Int}
    {b b' : Bus} (hvalue : ∀ data, value data ≠ -1) :
    (do let (Size, nDat) ← t
        if Size ≠ n then pure (-1) else pure (value nDat)).run b = some (r, b') ∧ r ≠ -1 ↔
      ∃ data, t.run b = some ((n, data), b') ∧ r = value data := by
  rw [Task.run_bind]
  constructor
  · rintro ⟨hrun, hr⟩
    obtain ⟨⟨⟨Size, data⟩, b₁⟩, ht, hrun⟩ := Option.bind_eq_some_iff.1 hrun
    dsimp only at hrun
    by_cases hn : Size = n
    · rw [if_neg (not_not.2 hn)] at hrun
      cases hrun
      exact ⟨data, by rw [ht, hn], rfl⟩
    · rw [if_pos hn] at hrun
      cases hrun
      exact absurd rfl hr
  · rintro ⟨data, ht, rfl⟩
    rw [ht, Option.bind_some]
    dsimp only
    rw [if_neg (not_not.2 rfl)]
    exact ⟨rfl, hvalue data⟩

theorem SCS2Host_lt (DataL DataH End : UInt8) : SCS2Host DataL DataH End < 2 ^ 16 := by
  have hor (x y : UInt8) : (x.toNat <<< 8) ||| y.toNat < 2 ^ 16 := by
    have hx := x.toNat_lt
    have hy := y.toNat_lt
    apply Nat.or_lt_two_pow
    · rw [Nat.shiftLeft_eq]
      omega
    · omega
  rw [SCS2Host]
  split
  · exact hor DataL DataH
  · exact hor DataH DataL

theorem Read_replies_iff (h : nLen ≠ 0) (ID MemAddr : UInt8) (b : Bus) :
    (∀ data b', (Read ID MemAddr nLen).run b = some (((nLen.toNat : Int), data), b') →
      data.length = nLen.toNat ∧ EndsInReply ID data b b') ↔ Addressed ID nLen b.rx := by
  have hdata (data : List UInt8) (b' : Bus) :
      data.length = nLen.toNat ∧ EndsInReply ID data b b' ↔
        ∃ nData, nData.length = nLen.toNat ∧ data = id nData ∧ EndsInReply ID nData b b' := by
    constructor
    · rintro ⟨hlen, hends⟩
      exact ⟨data, hlen, rfl, hends⟩
    · rintro ⟨_, hlen, rfl, hends⟩
      exact ⟨hlen, hends⟩
  simp only [hdata]
  apply replies_iff h ID MemAddr b id
  intro data b'
  constructor
  · intro hrun
    exact ⟨data, hrun, rfl⟩
  · rintro ⟨_, hrun, rfl⟩
    exact hrun

theorem readByte_replies_iff (ID MemAddr : UInt8) (b : Bus) :
    (∀ r b', (readByte ID MemAddr).run b = some (r, b') → r ≠ -1 →
      ∃ d : UInt8, r = d.toNat ∧ EndsInReply ID [d] b b') ↔ Addressed ID 1 b.rx := by
  let value (bDat : List UInt8) : Int := (bDat.getD 0 0).toNat
  have hone (r : Int) (b' : Bus) : (∃ d : UInt8, r = d.toNat ∧ EndsInReply ID [d] b b') ↔
      ∃ bDat, bDat.length = (1 : UInt8).toNat ∧ r = value bDat ∧ EndsInReply ID bDat b b' := by
    constructor
    · rintro ⟨d, hr, hends⟩
      exact ⟨[d], rfl, hr, hends⟩
    · rintro ⟨bDat, hlen, hr, hends⟩
      obtain ⟨d, rfl⟩ := List.length_eq_one_iff.1 hlen
      exact ⟨d, hr, hends⟩
  have hne (bDat : List UInt8) : value bDat ≠ -1 := fun h => nomatch h
  simp only [← and_imp, hone]
  exact replies_iff (by decide) ID MemAddr b value fun r b' => run_value_iff hne

theorem readWord_replies_iff (ID MemAddr End : UInt8) (b : Bus) :
    (∀ r b', (readWord ID MemAddr End).run b = some (r, b') → r ≠ -1 →
      ∃ d₀ d₁, r = SCS2Host d₀ d₁ End ∧ EndsInReply ID [d₀, d₁] b b') ↔
        Addressed ID 2 b.rx := by
  let value (nDat : List UInt8) : Int :=
    (UInt16.ofNat (SCS2Host (nDat.getD 0 0) (nDat.getD 1 0) End)).toNat
  have hword (d₀ d₁ : UInt8) : value [d₀, d₁] = SCS2Host d₀ d₁ End := by
    change ((UInt16.ofNat (SCS2Host d₀ d₁ End)).toNat : Int) = _
    rw [UInt16.toNat_ofNat_of_lt' (SCS2Host_lt d₀ d₁ End)]
  have htwo (r : Int) (b' : Bus) :
      (∃ d₀ d₁, r = SCS2Host d₀ d₁ End ∧ EndsInReply ID [d₀, d₁] b b') ↔
        ∃ nDat, nDat.length = (2 : UInt8).toNat ∧ r = value nDat ∧ EndsInReply ID nDat b b' := by
    constructor
    · rintro ⟨d₀, d₁, hr, hends⟩
      exact ⟨[d₀, d₁], rfl, hr.trans (hword d₀ d₁).symm, hends⟩
    · rintro ⟨nDat, hlen, hr, hends⟩
      obtain ⟨d₀, d₁, rfl⟩ := List.length_eq_two.1 hlen
      exact ⟨d₀, d₁, hr.trans (hword d₀ d₁), hends⟩
  have hne (nDat : List UInt8) : value nDat ≠ -1 := fun h => nomatch h
  simp only [← and_imp, htwo]
  exact replies_iff (by decide) ID MemAddr b value fun r b' => run_value_iff hne

/-- A successful read comes from the addressed servo exactly if nothing else can be taken for its
reply, since `Read` compares neither the servo nor the length. -/
theorem Read_addressed_iff (ID MemAddr nLen End : UInt8) (h : nLen ≠ 0) (b : Bus) :
    ((∀ data b', (Read ID MemAddr nLen).run b = some (((nLen.toNat : Int), data), b') →
        data.length = nLen.toNat ∧ EndsInReply ID data b b') ↔ Addressed ID nLen b.rx) ∧
      ((∀ r b', (readByte ID MemAddr).run b = some (r, b') → r ≠ -1 →
        ∃ d : UInt8, r = d.toNat ∧ EndsInReply ID [d] b b') ↔ Addressed ID 1 b.rx) ∧
      ((∀ r b', (readWord ID MemAddr End).run b = some (r, b') → r ≠ -1 →
        ∃ d₀ d₁, r = SCS2Host d₀ d₁ End ∧ EndsInReply ID [d₀, d₁] b b') ↔
          Addressed ID 2 b.rx) :=
  ⟨Read_replies_iff h ID MemAddr b, readByte_replies_iff ID MemAddr b,
    readWord_replies_iff ID MemAddr End b⟩

def wordReply : Bus where
  rx := (replyBytes 1 4 0 [42, 7]).map some

theorem wordReply_read :
    ((Read 1 56 2).run wordReply).map Prod.fst = some (2, [42, 7]) ∧
    ((∀ data b', (Read 1 56 2).run wordReply = some ((((2 : UInt8).toNat : Int), data), b') →
        data.length = (2 : UInt8).toNat ∧ EndsInReply 1 data wordReply b') ↔
          Addressed 1 2 wordReply.rx) ∧
      ((∀ r b', (readByte 1 56).run wordReply = some (r, b') → r ≠ -1 →
        ∃ d : UInt8, r = d.toNat ∧ EndsInReply 1 [d] wordReply b') ↔
          Addressed 1 1 wordReply.rx) ∧
      ((∀ r b', (readWord 1 56 0).run wordReply = some (r, b') → r ≠ -1 →
        ∃ d₀ d₁, r = SCS2Host d₀ d₁ 0 ∧ EndsInReply 1 [d₀, d₁] wordReply b') ↔
          Addressed 1 2 wordReply.rx) :=
  ⟨by decide +kernel, Read_addressed_iff 1 56 2 0 (by decide) wordReply⟩

def byteReply : Bus where
  rx := (replyBytes 2 3 0 [42]).map some

/-- Servo 1 is asked, and servo 2 answers. -/
theorem other_servo_accepted :
    ¬∀ data b', (Read 1 56 1).run byteReply = some ((1, data), b') →
      data.length = 1 ∧ EndsInReply 1 data byteReply b' := by
  intro h
  have hread : ∃ b', (Read 1 56 1).run byteReply = some ((((1 : UInt8).toNat : Int), [42]), b') ∧
      b'.rx = [] :=
    (run_Read_eq_iff (by decide) 1 56).2
      ⟨[], 2, 3, 0, by decide, noDouble_singleton _ _, rfl, rfl⟩
  obtain ⟨b', hrun, hrest⟩ := hread
  have hrx : byteReply.rx = ([] ++ replyBytes 2 3 0 [42]).map some ++ b'.rx := by
    rw [hrest]
    rfl
  have hID := ((h [42] b' hrun).2.eq hrx rfl).1
  exact absurd hID (by decide)

end RobotCar
