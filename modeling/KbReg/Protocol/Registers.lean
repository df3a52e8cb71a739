import KbReg.Protocol.Delivery

namespace KbReg.Protocol

open KbReg.Firmware KbReg.Host

/-- What the link is for: a map from keycodes to text memory and a selected keycode. -/
@[ext] structure RegisterMap where
  text : UInt16 → Option Bytes
  current : UInt16

namespace RegisterMap

variable (kc : UInt8 → UInt16)

def step (m : RegisterMap) : Call → RegisterMap
  | .setKey key => { m with current := kc (key.headD 0) }
  | .storeData data => { m with text := Function.update m.text m.current (some (data ++ [0])) }

def run (m : RegisterMap) (calls : List Call) : RegisterMap := calls.foldl (step kc) m

end RegisterMap

def lastStored (kc : UInt8 → UInt16) (c current : UInt16) : List Call → Option Bytes
  | [] => none
  | .setKey key :: calls => lastStored kc c (kc (key.headD 0)) calls
  | .storeData data :: calls =>
    (lastStored kc c current calls).or (if c = current then some data else none)

lemma run_text (kc : UInt8 → UInt16) (m : RegisterMap) (calls : List Call) (c : UInt16) :
    (m.run kc calls).text c =
      ((lastStored kc c m.current calls).map (· ++ [0])).or (m.text c) := by
  induction calls generalizing m with
  | nil => rfl
  | cons call calls ih =>
    cases call with
    | setKey key => exact ih _
    | storeData data =>
      refine (ih _).trans ?_
      simp only [lastStored, RegisterMap.step]
      cases lastStored kc c m.current calls with
      | some text => rfl
      | none =>
        by_cases hc : c = m.current
        · subst hc
          simp
        · simp [hc]

variable (fw : Build)

def keycodeOf (k : UInt8) : UInt16 := fw.widen (fw.asciiToKeycodeLut k)

def registers (kb : Keyboard) : RegisterMap := ⟨kb.stored, kb.current fw⟩

def Fits (data : Bytes) : Prop := 0 ∉ data ∧ data.length < fw.bufferMax

def Call.Fits : Call → Prop
  | .setKey key => key ≠ []
  | .storeData data => Protocol.Fits fw data

variable {fw} {env : Env}

lemma Call.Fits.valid {call : Call} (h : Call.Fits fw call) : call.Valid := by
  cases call with
  | setKey key => exact h
  | storeData data => trivial

lemma room_of_malloc (h : ∀ n, fw.malloc n = true) (kb : Keyboard) : Room fw kb :=
  ⟨h _, fun _ => h _⟩

lemma staged_of_fits (hw : ∀ n, 0 ≤ env.write n) (n : ℕ) (left : Bytes) {data : Bytes}
    (h : Fits fw data) : staged fw env n left data = data := by
  rw [staged_all left data fun i _ => hw (n + i), List.take_of_length_le (Nat.le_of_lt h.2)]

lemma deliver_call (hw : ∀ n, 0 ≤ env.write n) (hm : ∀ n, fw.malloc n = true) (kb : Keyboard)
    (n : ℕ) {call : Call} (h : Call.Fits fw call) :
    registers fw (deliver fw kb (stamp env n call.reports)) =
      (registers fw kb).step (keycodeOf fw) call := by
  cases call with
  | setKey key =>
    rw [Call.reports, deliver_key, if_neg (not_lt.mpr (hw n))]
    rfl
  | storeData data =>
    have hbuffer : Holds fw (deliver fw kb (stamp env n (bodyReports data))) data := by
      have hb := deliver_body_holds fw env kb n [] h.1 (Or.inl (hw n))
      rwa [staged_of_fits hw n [] h] at hb
    apply RegisterMap.ext
    · funext c
      change (deliver fw kb (stamp env n (storeReports data))).stored c = _
      rw [stored_after_store, copied_of_holds hbuffer h.2]
      simp only [hw, room_of_malloc hm kb, true_and]
      by_cases hc : c = kb.current fw
      · simp [hc, registers, RegisterMap.step]
      · simp [hc, registers, RegisterMap.step]
    · exact current_after_store kb n data

theorem deliver_calls (hw : ∀ n, 0 ≤ env.write n) (hm : ∀ n, fw.malloc n = true) (kb : Keyboard)
    (n : ℕ) {calls : List Call} (h : ∀ call ∈ calls, Call.Fits fw call) :
    registers fw (deliver fw kb (stamp env n (calls.flatMap Call.reports))) =
      (registers fw kb).run (keycodeOf fw) calls := by
  induction calls generalizing kb n with
  | nil => rfl
  | cons call calls ih =>
    rw [List.flatMap_cons, stamp_append, deliver_append,
      ih _ _ fun c hc => h c (List.mem_cons_of_mem _ hc), deliver_call hw hm kb n (h call (by simp))]
    rfl

def Unique (kb : Keyboard) : Prop := (kb.registerHead.map Register.keycode).Nodup

lemma receive_unique {kb : Keyboard} (h : Unique kb) (data : Bytes) :
    Unique (rawHidReceive fw kb data).1 := by
  simp only [rawHidReceive]
  split_ifs
  · exact h
  · rw [Unique, (receive_set_same _).registers]
    exact h
  · rw [Unique, (appendLoop_same _ _).registers]
    exact h
  · exact finish_unique h
  · exact h

lemma deliver_unique {kb : Keyboard} (h : Unique kb) (ws : List Written) :
    Unique (deliver fw kb ws) := by
  induction ws generalizing kb with
  | nil => exact h
  | cons w ws ih =>
    rw [deliver_cons]
    apply ih
    simp only [arrive]
    split_ifs
    · exact h
    · exact receive_unique h _

lemma widen_ascii {c : UInt8} (h : c < 0x80) : fw.widen c = c.toUInt16 := by
  have hmsb : c.toBitVec.msb = false := by
    rw [BitVec.msb_eq_false_iff_two_mul_lt]
    have hc : c.toNat < 128 := h
    change 2 * c.toNat < 2 ^ 8
    omega
  simp only [Build.widen, BitVec.signExtend_eq_setWidth_of_msb_false hmsb]
  split_ifs <;> rfl

theorem calls_refine_map (fw : Build) (env : Env) (s : Session) (kb : Keyboard) (calls : List Call)
    (hkc : ∀ a, fw.asciiToKeycodeLut a < 0x80) (hw : ∀ n, 0 ≤ env.write n)
    (hm : ∀ n, fw.malloc n = true) (hkb : Unique kb) (h : ∀ call ∈ calls, Call.Fits fw call) :
    ∃ t sent, runCalls env s calls = .ok t ∧ t.written = s.written ++ sent ∧
      Unique (deliver fw kb sent) ∧
      ∀ c, ((deliver fw kb sent).getRegister c).map Register.data =
        match lastStored (fun a => (fw.asciiToKeycodeLut a).toUInt16) c (kb.current fw) calls with
        | some data => some (data ++ [0])
        | none => (kb.getRegister c).map Register.data := by
  obtain ⟨t, ht, hwritten, _⟩ := runCalls_written env s fun call hc => (h call hc).valid
  refine ⟨t, _, ht, hwritten, deliver_unique hkb _, fun c => ?_⟩
  have hmap := deliver_calls hw hm kb s.written.length h
  have hkeys : keycodeOf fw = fun a => (fw.asciiToKeycodeLut a).toUInt16 :=
    funext fun a => widen_ascii (hkc a)
  have htext := congrArg (fun m => m.text c) hmap
  rw [run_text, hkeys] at htext
  apply htext.trans
  change Option.or (Option.map _ (lastStored _ c (kb.current fw) calls)) _ = _
  cases lastStored (fun a => (fw.asciiToKeycodeLut a).toUInt16) c (kb.current fw) calls <;> rfl

theorem calls_refine_map_greeting :
    ∃ sent, ((deliver (readmeBuild (· % 0x80) fun _ => true)
      (powerUp (readmeBuild (· % 0x80) fun _ => true) fun _ => 0) sent).getRegister 110).map
        Register.data = some [104, 105, 0] := by
  obtain ⟨_, sent, _, _, _, h⟩ := calls_refine_map (readmeBuild (· % 0x80) fun _ => true)
    (Env.prompt fun _ => 33) Session.fresh (powerUp (readmeBuild (· % 0x80) fun _ => true) fun _ => 0)
    [.setKey [110], .storeData [104, 105]] (fun a => UInt8.mod_lt a (by decide))
    prompt_write (fun _ => rfl) List.nodup_nil
    (by simp [Call.Fits, Fits, readmeBuild])
  exact ⟨sent, h 110⟩

end KbReg.Protocol
