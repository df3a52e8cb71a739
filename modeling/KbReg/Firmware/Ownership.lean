import KbReg.Firmware.Memory

namespace KbReg.Firmware

open KbReg Linked

variable {A : Type} [DecidableEq A]

abbrev Link (A : Type) := A × (UInt16 × Option A)

structure Shape (heap : Heap A) (head : Option A) (links : List (Link A))
    (texts : List (A × List UInt8)) (rest : List A) : Prop where
  chain : Chain (cellAt heap) head links
  holds : ∀ t ∈ texts, textAt heap t.1 = some t.2
  owned : heap.keys.Perm (links.map Prod.fst ++ texts.map Prod.fst ++ rest)

def Node.label (r : Node A) : UInt16 × Option A := (r.keycode, r.data)

lemma cellAt_of_nodeAt {heap : Heap A} {a : A} {r : Node A} (h : nodeAt heap a = some r) :
    cellAt heap a = some (r.label, r.next) := by
  change (nodeAt heap a).map _ = _
  rw [h]
  rfl

lemma nodeAt_of_cellAt {heap : Heap A} {a : A} {v : UInt16 × Option A} {next : Option A}
    (h : cellAt heap a = some (v, next)) : nodeAt heap a = some ⟨v.1, v.2, next⟩ := by
  change (nodeAt heap a).map _ = _ at h
  obtain ⟨r, hr, he⟩ := Option.map_eq_some_iff.mp h
  rw [hr]
  cases he
  rfl

namespace Shape

variable {heap : Heap A} {head : Option A} {links l m : List (Link A)} {texts : List (A × List UInt8)}
  {rest : List A} {a b c : A} {u v : UInt16 × Option A} {r : Node A} {bytes : List UInt8}

lemma nodup (h : Shape heap head links texts rest) :
    (links.map Prod.fst ++ texts.map Prod.fst ++ rest).Nodup :=
  h.owned.nodup_iff.mp heap.keys_nodup

lemma length_le (h : Shape heap head links texts rest) : links.length ≤ heap.keys.length := by
  have hlen := h.owned.length_eq
  simp only [List.length_append, List.length_map] at hlen
  omega

lemma perm {texts' : List (A × List UInt8)} (h : Shape heap head links texts rest)
    (ht : texts.Perm texts') : Shape heap head links texts' rest := by
  refine ⟨h.chain, fun t hm => h.holds t (ht.mem_iff.mpr hm), h.owned.trans ?_⟩
  exact ((List.Perm.refl _).append (ht.map _)).append (List.Perm.refl _)

lemma outside (h : Shape heap head links texts (a :: rest)) :
    a ∉ links.map Prod.fst ∧ a ∉ texts.map Prod.fst ∧ a ∉ rest ∧ a ∈ heap := by
  have hn := List.nodup_middle.mp h.nodup
  rw [List.nodup_cons, List.mem_append, List.mem_append, not_or, not_or] at hn
  refine ⟨hn.1.1.1, hn.1.1.2, hn.1.2, ?_⟩
  rw [AList.mem_keys, h.owned.mem_iff]
  simp

lemma frame {heap' : Heap A} {d : Option (Block A)} (h : Shape heap head links texts rest)
    (hl : a ∉ links.map Prod.fst) (ht : a ∉ texts.map Prod.fst)
    (hcell : cellAt heap' = Function.update (cellAt heap) a (asCell d))
    (htext : textAt heap' = Function.update (textAt heap) a (asText d)) {rest' : List A}
    (hkeys : heap'.keys.Perm (links.map Prod.fst ++ texts.map Prod.fst ++ rest')) :
    Shape heap' head links texts rest' := by
  refine ⟨?_, ?_, hkeys⟩
  · rw [hcell]
    exact h.chain.update hl _
  · intro t hm
    have hne : t.1 ≠ a := by
      rintro rfl
      exact ht (List.mem_map_of_mem hm)
    rw [htext, Function.update_of_ne hne, h.holds t hm]

lemma fresh (h : Shape heap head links texts rest) (ha : a ∉ heap) (d : Block A) :
    Shape (heap.insert a d) head links texts (a :: rest) := by
  have hnot : a ∉ links.map Prod.fst ++ texts.map Prod.fst ++ rest := by
    rw [← h.owned.mem_iff, ← AList.mem_keys]
    exact ha
  simp only [List.mem_append, not_or] at hnot
  refine h.frame hnot.1.1 hnot.1.2 (cellAt_insert heap a d) (textAt_insert heap a d) ?_
  rw [keys_fresh ha]
  exact (h.owned.cons a).trans List.perm_middle.symm

lemma touch (h : Shape heap head links texts (a :: rest)) (d : Block A) :
    Shape (heap.insert a d) head links texts (a :: rest) := by
  obtain ⟨hl, ht, _, hin⟩ := h.outside
  exact h.frame hl ht (cellAt_insert heap a d) (textAt_insert heap a d)
    ((keys_overwrite hin d).trans h.owned)

lemma erase (h : Shape heap head links texts (a :: rest)) :
    Shape (heap.erase a) head links texts rest := by
  obtain ⟨hl, ht, _, _⟩ := h.outside
  refine h.frame (d := none) hl ht (cellAt_erase heap a) (textAt_erase heap a) ?_
  rw [AList.keys_erase]
  have hp := (h.owned.trans List.perm_middle).erase a
  rwa [List.erase_cons_head] at hp

lemma adopt (h : Shape heap head links texts (a :: rest)) (ha : textAt heap a = some bytes) :
    Shape heap head links ((a, bytes) :: texts) rest := by
  refine ⟨h.chain, ?_, ?_⟩
  · intro t hm
    rcases List.mem_cons.mp hm with rfl | hm
    · exact ha
    · exact h.holds t hm
  · rw [List.map_cons, List.append_assoc, List.cons_append]
    refine (h.owned.trans List.perm_middle).trans ?_
    rw [List.append_assoc]
    exact List.perm_middle.symm

lemma discard (h : Shape heap head links ((a, bytes) :: texts) rest) :
    Shape heap head links texts (a :: rest) := by
  refine ⟨h.chain, fun t hm => h.holds t (List.mem_cons_of_mem _ hm), h.owned.trans ?_⟩
  rw [List.map_cons, List.append_assoc, List.cons_append]
  refine List.perm_middle.trans ?_
  rw [← List.append_assoc]
  exact List.perm_middle.symm

lemma text_ne (h : Shape heap head links texts rest) (ha : a ∈ links.map Prod.fst)
    {t : A × List UInt8} (ht : t ∈ texts) : t.1 ≠ a := by
  have hn := h.nodup
  rw [List.append_assoc, List.nodup_append] at hn
  exact (hn.2.2 a ha t.1 (List.mem_append_left _ (List.mem_map_of_mem ht))).symm

lemma relabel (h : Shape heap head (l ++ (a, v) :: m) texts rest) (ha : nodeAt heap a = some r)
    {r' : Node A} (hr : r'.next = r.next) :
    Shape (heap.insert a (.node r')) head (l ++ (a, r'.label) :: m) texts rest := by
  have hcell := cellAt_of_nodeAt ha
  obtain ⟨next, hnext, _⟩ := h.chain.cell_eq
  have hv : v = r.label := by
    rw [hcell] at hnext
    cases hnext
    rfl
  subst hv
  refine ⟨?_, ?_, ?_⟩
  · rw [cellAt_insert, show asCell (some (.node r')) = some (r'.label, r.next) from hr ▸ rfl]
    exact h.chain.relabel hcell _
  · intro t hm
    rw [textAt_insert, Function.update_of_ne (h.text_ne (by simp) hm), h.holds t hm]
  · refine (keys_overwrite (mem_of_nodeAt ha) _).trans (h.owned.trans ?_)
    simp

lemma attach_first (h : Shape heap head [] texts (b :: rest)) (hb : nodeAt heap b = some r)
    (hr : r.next = none) : Shape heap (some b) [(b, r.label)] texts rest := by
  have hcell := cellAt_of_nodeAt hb
  rw [hr] at hcell
  refine ⟨.cons hcell .nil, h.holds, h.owned.trans ?_⟩
  exact List.perm_middle

lemma attach (h : Shape heap head (l ++ [(c, u)]) texts (b :: rest)) (hb : nodeAt heap b = some r)
    (hr : r.next = none) {r' : Node A} (hc : nodeAt heap c = some r') :
    Shape (heap.insert c (.node { r' with next := some b })) head (l ++ [(c, u), (b, r.label)])
      texts rest := by
  obtain ⟨hl, ht, _, _⟩ := h.outside
  have hcell := cellAt_of_nodeAt hb
  rw [hr] at hcell
  have hlast := cellAt_of_nodeAt hc
  obtain ⟨next, hnext, htail⟩ := h.chain.cell_eq
  have he : u = r'.label ∧ r'.next = none := by
    cases htail
    rw [hlast] at hnext
    simpa [eq_comm] using hnext
  rw [he.2] at hlast
  refine ⟨?_, ?_, ?_⟩
  · rw [cellAt_insert, he.1]
    rw [he.1] at h hl
    exact h.chain.link hlast hcell hl
  · intro t hm
    rw [textAt_insert, Function.update_of_ne (h.text_ne (by simp) hm), h.holds t hm]
  · refine (keys_overwrite (mem_of_nodeAt hc) _).trans (h.owned.trans ?_)
    simp only [List.map_append, List.map_cons, List.map_nil, List.append_assoc, List.cons_append,
      List.nil_append]
    refine (List.Perm.refl _).append (List.Perm.cons c ?_)
    exact List.perm_middle

end Shape

structure Slot (A : Type) where
  node : A
  text : A
  register : Register

def Slot.link (s : Slot A) : Link A := (s.node, (s.register.keycode, some s.text))

def Slot.content (s : Slot A) : A × List UInt8 := (s.text, s.register.data)

def Layout (chip : Chip A) (slots : List (Slot A)) (lost : List A) : Prop :=
  Shape chip.heap chip.registerHead (slots.map Slot.link) (slots.map Slot.content) lost

def Chip.keyboard (chip : Chip A) (slots : List (Slot A)) : Keyboard :=
  { chip.globals with registerHead := slots.map Slot.register }

variable {fw : Build} {mem : Allocator A} {chip : Chip A} {slots : List (Slot A)} {lost : List A}

variable (chip slots) in
lemma getRegister_keyboard (c : UInt16) : (chip.keyboard slots).getRegister c =
    (slots.find? fun s => s.register.keycode = c).map Slot.register := by
  rw [Keyboard.getRegister, Chip.keyboard]
  induction slots with
  | nil => rfl
  | cons s slots ih =>
    by_cases hs : s.register.keycode = c
    · simp [Keyed.find, hs]
    · simpa [Keyed.find, hs] using ih

lemma getRegister_eq {texts : List (A × List UInt8)} {rest : List A}
    (h : Shape chip.heap chip.registerHead (slots.map Slot.link) texts rest) (c : UInt16) :
    chip.getRegister c = some ((slots.find? fun s => s.register.keycode = c).map Slot.node) := by
  have hfound := search_eq (fun v => v.1 = c) h.chain h.length_le
  rw [List.find?_map, Option.map_map] at hfound
  exact hfound

lemma malloc_true (h : fw.malloc chip.globals.mallocs = true) (size : ℕ) (block : Block A) :
    chip.malloc fw mem size block = (some (mem.place chip.heap size),
      { chip with
        globals := { chip.globals with mallocs := chip.globals.mallocs + 1 }
        heap := chip.heap.insert (mem.place chip.heap size) block }) := by
  simp [Chip.malloc, Keyboard.malloc, h]

lemma malloc_false (h : fw.malloc chip.globals.mallocs = false) (size : ℕ) (block : Block A) :
    chip.malloc fw mem size block =
      (none, { chip with globals := { chip.globals with mallocs := chip.globals.mallocs + 1 } }) := by
  simp [Chip.malloc, Keyboard.malloc, h]

section Fill

variable {links l m : List (Link A)} {texts : List (A × List UInt8)} {rest : List A} {node data : A}
  {v : UInt16 × Option A} {old : List UInt8}

variable (chip) in
lemma assign_eq (h : Shape chip.heap chip.registerHead (l ++ (node, v) :: m) texts rest)
    {f : Node A → Node A} {g : UInt16 × Option A → UInt16 × Option A}
    (hnext : ∀ r, (f r).next = r.next) (hlabel : ∀ r, (f r).label = g r.label) : ∃ heap,
      chip.assign node f = some { chip with heap := heap } ∧
      Shape heap chip.registerHead (l ++ (node, g v) :: m) texts rest := by
  obtain ⟨next, hcell, _⟩ := h.chain.cell_eq
  have hnode := nodeAt_of_cellAt hcell
  refine ⟨_, by rw [Chip.assign, hnode]; rfl, ?_⟩
  have hshape := h.relabel hnode (hnext _)
  rwa [hlabel] at hshape

variable (fw chip) in
lemma memcpy_eq {a : A} {size : ℕ} {bytes : List UInt8} (h : textAt chip.heap a = some bytes)
    (hlen : bytes.length = size) : chip.memcpy fw a size = if size ≤ fw.bufferMax then
      some { chip with
        globals := chip.globals.logCopy
        heap := chip.heap.insert a (.text ((List.range size).map chip.globals.kbRegisterBuffer)) }
      else none := by
  subst hlen
  by_cases hfit : bytes.length ≤ fw.bufferMax
  · simp [Chip.memcpy, h, hfit]
  · simp [Chip.memcpy, h, hfit]

variable (fw chip) in
lemma fill_eq (h : Shape chip.heap chip.registerHead (l ++ (node, v) :: m) ((data, old) :: texts) rest)
    (hlen : old.length = chip.globals.kbRegisterBufferOffset + 1) :
    (chip.globals.kbRegisterBufferOffset < fw.bufferMax → ∃ heap,
      chip.fill fw node data = some { chip with globals := chip.globals.logCopy, heap := heap } ∧
      Shape heap chip.registerHead (l ++ (node, (chip.globals.current fw, some data)) :: m)
        ((data, chip.globals.copied) :: texts) rest) ∧
    (¬ chip.globals.kbRegisterBufferOffset < fw.bufferMax → chip.fill fw node data = none) := by
  obtain ⟨heap₁, ha₁, h₁⟩ := assign_eq chip h (f := fun r => { r with keycode := chip.globals.current fw })
    (g := fun v => (chip.globals.current fw, v.2)) (fun _ => rfl) fun _ => rfl
  obtain ⟨heap₂, ha₂, h₂⟩ := assign_eq { chip with heap := heap₁ } h₁
    (f := fun r => { r with data := some data }) (g := fun v => (v.1, some data)) (fun _ => rfl)
    fun _ => rfl
  have htext := h₂.holds (data, old) (by simp)
  have hcopy := memcpy_eq fw { chip with heap := heap₂ } htext hlen
  simp only [Chip.fill, ha₁, ha₂, Option.bind_eq_bind, Option.bind_some]
  rw [hcopy]
  constructor
  · intro hfit
    rw [if_pos (Nat.succ_le_of_lt hfit)]
    refine ⟨_, rfl, ?_⟩
    refine (h₂.discard.touch _).adopt ?_
    rw [textAt_insert, Function.update_self]
    rfl
  · intro hfit
    rw [if_neg (fun hle => hfit (Nat.lt_of_succ_le hle))]

lemma lastCell_walk {heap : Heap A} {head : A} {u : UInt16 × Option A} {ls : List (Link A)}
    (h : Shape heap (some head) ((head, u) :: ls) texts rest) : ∃ first prev w l,
      nodeAt heap head = some first ∧
      lastCell (cellAt heap) heap.keys.length head first.next = some prev ∧
      (head, u) :: ls = l ++ [(prev, w)] := by
  obtain ⟨next, hcell, htail⟩ := Chain.cell_eq (l := []) h.chain
  have hlong := Nat.le_of_succ_le h.length_le
  have hlast := lastCell_eq htail hlong head
  rcases List.eq_nil_or_concat ls with rfl | ⟨l, c, rfl⟩
  · exact ⟨_, head, u, [], nodeAt_of_cellAt hcell, hlast, rfl⟩
  · refine ⟨_, c.1, c.2, (head, u) :: l, nodeAt_of_cellAt hcell, ?_, by simp⟩
    rw [hlast]
    simp

variable (chip) in
lemma appendNode_eq {r : Node A} (h : Shape chip.heap chip.registerHead links texts (node :: rest))
    (hnode : nodeAt chip.heap node = some r) (hr : r.next = none) : ∃ heap head,
      chip.appendNode node = some { chip with registerHead := head, heap := heap } ∧
      Shape heap head (links ++ [(node, r.label)]) texts rest := by
  cases hhead : chip.registerHead with
  | none =>
    rw [hhead] at h
    cases h.chain
    exact ⟨chip.heap, some node, by simp only [Chip.appendNode, hhead], h.attach_first hnode hr⟩
  | some head =>
    rw [hhead] at h
    obtain ⟨u, ls, rfl⟩ : ∃ u ls, links = (head, u) :: ls := by
      cases h.chain
      exact ⟨_, _, rfl⟩
    obtain ⟨first, prev, w, l, hfirst, hprev, hsplit⟩ := lastCell_walk h
    rw [hsplit] at h ⊢
    obtain ⟨next, hcell, _⟩ := h.chain.cell_eq
    have hlast := nodeAt_of_cellAt hcell
    refine ⟨_, some head, ?_, by rw [List.append_assoc]; exact h.attach hnode hr hlast⟩
    simp only [Chip.appendNode, hhead, hfirst, Chip.limit, hprev, Chip.assign, hlast,
      Option.bind_eq_bind, Option.bind_some, Option.map_some]

variable (mem chip) in
lemma initNewRegister_eq (h : Shape chip.heap chip.registerHead links texts rest)
    (hm : fw.malloc chip.globals.mallocs = true) (size : ℕ) : ∃ node v heap head,
      chip.initNewRegister fw mem size = some (some node, ⟨{ chip.globals with
        mallocs := chip.globals.mallocs + 1 }, head, heap⟩) ∧
      Shape heap head (links ++ [(node, v)]) texts rest := by
  let node := mem.place chip.heap size
  let old := mem.oldNode chip.globals.mallocs
  let r : Node A := ⟨old.keycode, old.data, none⟩
  let chip₁ : Chip A := ⟨{ chip.globals with mallocs := chip.globals.mallocs + 1 }, chip.registerHead,
    chip.heap.insert node (.node old)⟩
  let chip₂ : Chip A := { chip₁ with heap := chip₁.heap.insert node (.node r) }
  have hassign : chip₁.assign node (fun r => { r with next := none }) = some chip₂ := by
    rw [Chip.assign, nodeAt_insert]
    rfl
  have hshape := (h.fresh (mem.fresh chip.heap size) (.node old)).touch (.node r)
  obtain ⟨heap, head, happend, hlinked⟩ := appendNode_eq chip₂ hshape (nodeAt_insert ..) rfl
  refine ⟨node, r.label, heap, head, ?_, hlinked⟩
  have hmalloc : chip.malloc fw mem size (.node old) = (some node, chip₁) := malloc_true hm ..
  simp only [Chip.initNewRegister]
  rw [hmalloc]
  change ((chip₁.assign node _).bind fun chip => _) = _
  rw [hassign, Option.bind_some, happend]
  rfl

end Fill

section Finish

variable {kb : Keyboard}

def Leaks (fw : Build) (kb : Keyboard) : Prop :=
  fw.malloc kb.mallocs = true ∧ kb.getRegister (kb.current fw) = none ∧
    fw.malloc (kb.mallocs + 1) = false

instance : Decidable (Leaks fw kb) := inferInstanceAs (Decidable (_ ∧ _ ∧ _))

lemma finish_refused (kb : Keyboard) (h : fw.malloc kb.mallocs = false) :
    finish fw kb = ({ kb with mallocs := kb.mallocs + 1 }, .outOfMemory) := by
  simp [finish, Keyboard.malloc, h]

lemma finish_leaks (h : Leaks fw kb) :
    finish fw kb = ({ kb with mallocs := kb.mallocs + 2 }, .outOfMemory) := by
  simp [finish, Keyboard.malloc, h.1, getRegister_mallocs, current_mallocs, h.2.1, initNewRegister, h.2.2]

lemma finish_new (kb : Keyboard) (h : fw.malloc kb.mallocs = true) (hc : kb.getRegister (kb.current fw) = none)
    (hn : fw.malloc (kb.mallocs + 1) = true) : finish fw kb = (Keyboard.logCopy { kb with
      registerHead := kb.registerHead ++ [⟨kb.current fw, kb.copied⟩]
      mallocs := kb.mallocs + 2 }, .ok) := by
  simp only [finish, Keyboard.malloc, h, if_true, getRegister_mallocs, current_mallocs, hc, initNewRegister, hn]
  rfl

lemma finish_again (kb : Keyboard) (h : fw.malloc kb.mallocs = true) {node : Register}
    (hc : kb.getRegister (kb.current fw) = some node) : finish fw kb = (Keyboard.logCopy { kb with
      registerHead := Keyed.overwrite Register.keycode ⟨kb.current fw, kb.copied⟩ kb.registerHead
      mallocs := kb.mallocs + 1 }, .ok) := by
  simp only [finish, Keyboard.malloc, h, if_true, getRegister_mallocs, current_mallocs, hc]
  rfl

omit [DecidableEq A] in
lemma overwrite_slots {pre : List (Slot A)} (post : List (Slot A)) {s : Slot A} (node : Register)
    (hs : s.register.keycode = node.keycode) (hpre : ∀ t ∈ pre, t.register.keycode ≠ node.keycode) :
    Keyed.overwrite Register.keycode node ((pre ++ s :: post).map Slot.register) =
      pre.map Slot.register ++ node :: post.map Slot.register := by
  induction pre with
  | nil => simp [Keyed.overwrite, hs]
  | cons t pre ih =>
    have ht := hpre t (by simp)
    simpa [Keyed.overwrite, ht] using ih fun u hu => hpre u (List.mem_cons_of_mem _ hu)

structure Follows (fw : Build) (mem : Allocator A) (size : ℕ) (chip : Chip A) (slots : List (Slot A))
    (lost : List A) : Prop where
  answers : (Room fw (chip.keyboard slots) → chip.globals.kbRegisterBufferOffset < fw.bufferMax) →
    ∃ chip' slots' lost', chip.finish fw mem size = some (chip', (finish fw (chip.keyboard slots)).2) ∧
      chip'.keyboard slots' = (finish fw (chip.keyboard slots)).1 ∧ Layout chip' slots' lost' ∧
      lost'.length = lost.length + if Leaks fw (chip.keyboard slots) then 1 else 0
  faults : Room fw (chip.keyboard slots) → ¬ chip.globals.kbRegisterBufferOffset < fw.bufferMax →
    chip.finish fw mem size = none

lemma follows_refused (h : Layout chip slots lost) (hm : fw.malloc chip.globals.mallocs = false)
    (size : ℕ) : Follows fw mem size chip slots lost := by
  have hno : ¬ fw.malloc (chip.keyboard slots).mallocs = true := Bool.eq_false_iff.mp hm
  constructor
  · intro _
    rw [finish_refused (chip.keyboard slots) hm, if_neg fun hl => hno hl.1]
    refine ⟨{ chip with globals := { chip.globals with mallocs := chip.globals.mallocs + 1 } }, slots,
      lost, ?_, rfl, h, rfl⟩
    simp only [Chip.finish, malloc_false hm]
  · exact fun hroom => absurd hroom.1 hno

variable (mem) in
lemma finish_text (h : Layout chip slots lost) (hm : fw.malloc chip.globals.mallocs = true) (size : ℕ) :
    ∃ data old heap, chip.finish fw mem size = Chip.store fw mem ⟨{ chip.globals with
        mallocs := chip.globals.mallocs + 1 }, chip.registerHead, heap⟩ size data ∧
      old.length = chip.globals.kbRegisterBufferOffset + 1 ∧
      Shape heap chip.registerHead (slots.map Slot.link) ((data, old) :: slots.map Slot.content) lost := by
  let old := (List.range (chip.globals.kbRegisterBufferOffset + 1)).map
    (mem.oldText chip.globals.mallocs)
  let data := mem.place chip.heap (chip.globals.kbRegisterBufferOffset + 1)
  refine ⟨data, old, chip.heap.insert data (.text old), ?_, by simp [old], ?_⟩
  · simp only [Chip.finish, malloc_true hm]
    rfl
  · have hshape := Shape.fresh h (mem.fresh chip.heap (chip.globals.kbRegisterBufferOffset + 1)) (.text old)
    refine hshape.adopt ?_
    rw [textAt_insert, Function.update_self]
    rfl

section Store

variable {old : List UInt8} {data : A}
  (h : Shape chip.heap chip.registerHead (slots.map Slot.link) ((data, old) :: slots.map Slot.content) lost)
  (hlen : old.length = chip.globals.kbRegisterBufferOffset + 1)
include h

variable (mem chip) in
lemma store_leaks (hc : slots.find? (fun s => s.register.keycode = chip.globals.current fw) = none)
    (hm : fw.malloc chip.globals.mallocs = false) (size : ℕ) : chip.store fw mem size data =
      some ({ chip with globals := { chip.globals with mallocs := chip.globals.mallocs + 1 } },
        .outOfMemory) := by
  simp only [Chip.store, getRegister_eq h, hc, Option.map_none, Option.bind_eq_bind, Option.bind_some,
    Chip.initNewRegister, malloc_false hm]

include hlen

variable (mem chip) in
lemma store_new (hc : slots.find? (fun s => s.register.keycode = chip.globals.current fw) = none)
    (hm : fw.malloc chip.globals.mallocs = true) (size : ℕ) :
    (chip.globals.kbRegisterBufferOffset < fw.bufferMax → ∃ node heap head,
      chip.store fw mem size data = some (⟨Keyboard.logCopy { chip.globals with
        mallocs := chip.globals.mallocs + 1 }, head, heap⟩, .ok) ∧
      Layout ⟨Keyboard.logCopy { chip.globals with mallocs := chip.globals.mallocs + 1 }, head, heap⟩
        (slots ++ [⟨node, data, ⟨chip.globals.current fw, chip.globals.copied⟩⟩]) lost) ∧
    (¬ chip.globals.kbRegisterBufferOffset < fw.bufferMax → chip.store fw mem size data = none) := by
  obtain ⟨node, v, heap, head, hinit, hnew⟩ := initNewRegister_eq mem chip h hm size
  obtain ⟨hfits, hfull⟩ := fill_eq fw ⟨{ chip.globals with
    mallocs := chip.globals.mallocs + 1 }, head, heap⟩ hnew hlen
  have hstore : chip.store fw mem size data = (Chip.fill fw ⟨{ chip.globals with
      mallocs := chip.globals.mallocs + 1 }, head, heap⟩ node data).bind fun chip => some (chip, .ok) := by
    simp only [Chip.store, getRegister_eq h, hc, Option.map_none, Option.bind_eq_bind, Option.bind_some,
      hinit]
  constructor
  · intro hfit
    obtain ⟨heap', hfill, hshape⟩ := hfits hfit
    refine ⟨node, heap', head, by rw [hstore, hfill]; rfl, ?_⟩
    have hperm := hshape.perm (List.perm_append_singleton _ _).symm
    rw [Layout, List.map_append, List.map_append]
    exact hperm
  · intro hfit
    rw [hstore, hfull hfit]
    rfl

variable (mem chip) in
lemma store_again {pre post : List (Slot A)} {s : Slot A} (hslots : slots = pre ++ s :: post)
    (hc : slots.find? (fun s => s.register.keycode = chip.globals.current fw) = some s) (size : ℕ) :
    (chip.globals.kbRegisterBufferOffset < fw.bufferMax → ∃ heap,
      chip.store fw mem size data =
        some (⟨chip.globals.logCopy, chip.registerHead, heap⟩, .ok) ∧
      Layout ⟨chip.globals.logCopy, chip.registerHead, heap⟩
        (pre ++ ⟨s.node, data, ⟨chip.globals.current fw, chip.globals.copied⟩⟩ :: post) lost) ∧
    (¬ chip.globals.kbRegisterBufferOffset < fw.bufferMax → chip.store fw mem size data = none) := by
  have hfound := getRegister_eq h (chip.globals.current fw)
  rw [hc] at hfound
  subst hslots
  simp only [List.map_append, List.map_cons] at h
  obtain ⟨next, hcell, _⟩ := h.chain.cell_eq
  have hnode := nodeAt_of_cellAt hcell
  have hperm : ((data, old) :: (pre.map Slot.content ++ s.content :: post.map Slot.content)).Perm
      (s.content :: (data, old) :: (pre.map Slot.content ++ post.map Slot.content)) :=
    (List.perm_middle.cons _).trans (List.Perm.swap _ _ _)
  have hdropped := (h.perm hperm).discard
  obtain ⟨hfits, hfull⟩ := fill_eq fw { chip with heap := chip.heap.erase s.text } hdropped.erase hlen
  have hstore : chip.store fw mem size data = (Chip.fill fw { chip with
      heap := chip.heap.erase s.text } s.node data).bind fun chip => some (chip, .ok) := by
    simp only [Chip.store, hfound, Option.map_some, Option.bind_eq_bind, Option.bind_some, hnode,
      Chip.free, hdropped.outside.2.2.2, if_true]
  constructor
  · intro hfit
    obtain ⟨heap, hfill, hshape⟩ := hfits hfit
    refine ⟨heap, by rw [hstore, hfill]; rfl, ?_⟩
    have hback := hshape.perm List.perm_middle.symm
    rw [Layout, List.map_append, List.map_append]
    exact hback
  · intro hfit
    rw [hstore, hfull hfit]
    rfl

end Store

omit [DecidableEq A] in
lemma find_split {c : UInt16} {s : Slot A} (h : slots.find? (fun s => s.register.keycode = c) = some s) :
    s.register.keycode = c ∧ ∃ pre post, slots = pre ++ s :: post ∧
      ∀ t ∈ pre, t.register.keycode ≠ c := by
  obtain ⟨hs, pre, post, hsplit, hpre⟩ := List.find?_eq_some_iff_append.mp h
  exact ⟨by simpa using hs, pre, post, hsplit, fun t ht => by simpa using hpre t ht⟩

variable (fw mem) in
theorem finish_follows (h : Layout chip slots lost) (size : ℕ) :
    Follows fw mem size chip slots lost := by
  by_cases hm : fw.malloc chip.globals.mallocs = true
  swap
  · exact follows_refused h (Bool.eq_false_iff.mpr hm) size
  obtain ⟨data, old, heap, hfinish, hlen, hshape⟩ := finish_text mem h hm size
  let chip₁ : Chip A := ⟨{ chip.globals with mallocs := chip.globals.mallocs + 1 }, chip.registerHead,
    heap⟩
  have hget := getRegister_keyboard chip slots (chip.globals.current fw)
  cases hc : slots.find? (fun s => s.register.keycode = chip.globals.current fw) with
  | none =>
    rw [hc, Option.map_none] at hget
    cases hn : fw.malloc (chip.globals.mallocs + 1) with
    | false =>
      have hl : Leaks fw (chip.keyboard slots) := ⟨hm, hget, hn⟩
      have hstore := store_leaks mem chip₁ hshape hc hn size
      constructor
      · intro _
        rw [finish_leaks hl, if_pos hl, hfinish, hstore]
        exact ⟨_, slots, data :: lost, rfl, rfl, hshape.discard, rfl⟩
      · intro hroom
        exact absurd (hroom.2 hget) (Bool.eq_false_iff.mp hn)
    | true =>
      have hl : ¬ Leaks fw (chip.keyboard slots) := fun hl => Bool.eq_false_iff.mp hl.2.2 hn
      obtain ⟨hfits, hfull⟩ := store_new mem chip₁ hshape hlen hc hn size
      constructor
      · intro hfit
        obtain ⟨node, heap', head', hstore, hlayout⟩ := hfits (hfit ⟨hm, fun _ => hn⟩)
        rw [finish_new (chip.keyboard slots) hm hget hn, if_neg hl, hfinish, hstore]
        refine ⟨_, _, lost, rfl, ?_, hlayout, rfl⟩
        rw [Chip.keyboard, List.map_append]
        rfl
      · intro _ hfit
        rw [hfinish, hfull hfit]
  | some s =>
    rw [hc, Option.map_some] at hget
    obtain ⟨hkey, pre, post, hslots, hpre⟩ := find_split hc
    have hl : ¬ Leaks fw (chip.keyboard slots) := fun hl => by
      have hnone : (chip.keyboard slots).getRegister (chip.globals.current fw) = none := hl.2.1
      rw [hget] at hnone
      cases hnone
    obtain ⟨hfits, hfull⟩ := store_again mem chip₁ hshape hlen hslots hc size
    constructor
    · intro hfit
      have hroom : Room fw (chip.keyboard slots) := by
        refine ⟨hm, fun hnone => ?_⟩
        have hh : (chip.keyboard slots).getRegister (chip.globals.current fw) = none := hnone
        rw [hget] at hh
        cases hh
      obtain ⟨heap', hstore, hlayout⟩ := hfits (hfit hroom)
      rw [finish_again (chip.keyboard slots) hm hget, if_neg hl, hfinish, hstore]
      refine ⟨_, _, lost, rfl, ?_, hlayout, rfl⟩
      have hover := overwrite_slots post ⟨chip.globals.current fw, chip.globals.copied⟩ hkey hpre
      rw [← hslots] at hover
      change _ = Keyboard.logCopy { chip.globals with
        registerHead := Keyed.overwrite Register.keycode ⟨chip.globals.current fw, chip.globals.copied⟩
          (slots.map Slot.register)
        mallocs := chip.globals.mallocs + 1 }
      rw [hover, Chip.keyboard, List.map_append]
      rfl
    · intro _ hfit
      rw [hfinish, hfull hfit]

end Finish

end KbReg.Firmware
