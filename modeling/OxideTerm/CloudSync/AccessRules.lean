import OxideTerm.CloudSync.Recovery

/-!
# Rules for the accesses

What each access establishes, for every property that its writes keep. The property is what
holds wherever the process may be gone.
-/

namespace OxideTerm.CloudSync

open OxideTerm.Lib Procedure

variable {I : World → Prop}

namespace KeyStore

@[simp] theorem erase_self (k : KeyStore) (reference : String) : k.erase reference reference = none :=
  Function.update_self ..

theorem erase_of_ne (k : KeyStore) {reference other : String} (h : other ≠ reference) :
    k.erase reference other = k other := Function.update_of_ne h _ _

theorem erase_of_none {k : KeyStore} {other : String} (h : k other = none) (reference : String) :
    k.erase reference other = none := by
  by_cases hother : other = reference
  · rw [hother, erase_self]
  · rw [erase_of_ne k hother, h]

end KeyStore

namespace World

def eraseKeychain (w : World) (reference : String) : World :=
  w.setStores fun s => { s with keychain := s.keychain.erase reference }

def erasePrivilegeKeychain (w : World) (reference : String) : World :=
  w.setStores fun s => { s with privilegeKeychain := s.privilegeKeychain.erase reference }

def eraseManagedKeychain (w : World) (reference : String) : World :=
  w.setStores fun s => { s with managedKeychain := s.managedKeychain.erase reference }

def eraseManagedFile (w : World) (reference : String) : World :=
  w.setStores fun s => { s with managedFiles := s.managedFiles.erase reference }

def refused (w : World) (reference : String) : World :=
  { w with refusals := w.refusals ++ [reference] }

/-- The slot of a managed key is deleted, as far as the key store permits. -/
def ManagedDeleted (reference : String) (w : World) : Prop :=
  w.stores.managedFiles reference = none ∧
    (w.stores.managedKeychain reference = none ∨ reference ∈ w.refusals)

theorem ManagedDeleted.eraseManagedKeychain {w : World} {reference : String}
    (h : w.ManagedDeleted reference) (r : String) :
    (w.eraseManagedKeychain r).ManagedDeleted reference :=
  ⟨h.1, h.2.imp_left fun hgone => KeyStore.erase_of_none hgone r⟩

theorem ManagedDeleted.eraseManagedFile {w : World} {reference : String}
    (h : w.ManagedDeleted reference) (r : String) :
    (w.eraseManagedFile r).ManagedDeleted reference :=
  ⟨KeyStore.erase_of_none h.1 r, h.2⟩

theorem ManagedDeleted.refused {w : World} {reference : String}
    (h : w.ManagedDeleted reference) (r : String) : (w.refused r).ManagedDeleted reference :=
  ⟨h.1, h.2.imp_right fun hmem => List.mem_append_left _ hmem⟩

end World

open World

namespace Access

/-! ## Single accesses -/

theorem triple_writeStores {error : String} {f : Stores → Stores} {P Q : World → Prop}
    (h : ∀ w, P w → Q (w.setStores f)) (hI : ∀ w, P w → I w)
    (hwrite : ∀ w, P w → I (w.setStores f)) :
    Triple P (writeStores error f) (fun _ w => Q w) I := Triple.write hI h hwrite

/-- Whether the access failed tells which of the postconditions holds. -/
theorem triple_fails {x : Access Unit} {P Q E : World → Prop}
    (hx : Triple P x (fun _ => Q) E) :
    Triple P (fails x) (fun refused w => if refused then E w else Q w) E := by
  refine Triple.handle (hx.bind fun _ => Triple.pure fun w hw => ?_) (fun _ => ?_) fun _ hw => hw
  · simpa using hw
  · exact Triple.pure fun w hw => by simpa using hw

/-- An access that deletes a slot: what it does to the state, and what holds from then on. -/
structure Deletion (delete : String → Access Unit) (erase : World → String → World)
    (gone : String → World → Prop) : Prop where
  triple : ∀ (r : String) (J : World → Prop), (∀ w, J w → J (erase w r)) →
    Triple J (delete r) (fun _ w => J w ∧ gone r w) J
  stable : ∀ (r b : String) (w : World), gone b w → gone b (erase w r)

theorem deletion_keychain : Deletion deleteKeychain World.eraseKeychain
    fun r w => w.stores.keychain r = none where
  triple _ _ hJ :=
    triple_writeStores (fun w hw => ⟨hJ w hw, KeyStore.erase_self ..⟩) (fun _ hw => hw) hJ
  stable r _ _ h := KeyStore.erase_of_none h r

theorem deletion_privilegeKeychain : Deletion deletePrivilegeKeychain World.erasePrivilegeKeychain
    fun r w => w.stores.privilegeKeychain r = none where
  triple _ _ hJ :=
    triple_writeStores (fun w hw => ⟨hJ w hw, KeyStore.erase_self ..⟩) (fun _ hw => hw) hJ
  stable r _ _ h := KeyStore.erase_of_none h r

theorem triple_deleteManagedSshKeySecret {reference : String}
    (hkeychain : ∀ w, I w → I (w.eraseManagedKeychain reference))
    (hfile : ∀ w, I w → I (w.eraseManagedFile reference))
    (hrefused : ∀ w, I w → I (w.refused reference)) :
    Triple I (deleteManagedSshKeySecret reference)
      (fun _ w => I w ∧ w.ManagedDeleted reference) I := by
  have hdelete : Triple I (deleteManagedKeychain reference)
      (fun _ w => I w ∧ w.stores.managedKeychain reference = none) I :=
    triple_writeStores (fun w hw => ⟨hkeychain w hw, KeyStore.erase_self ..⟩) (fun _ hw => hw)
      hkeychain
  refine (triple_fails hdelete).bind fun refused => ?_
  cases refused with
  | false =>
    refine Triple.bind (Triple.write (fun w hw => hw.1)
      (Q := fun _ w => I w ∧ w.ManagedDeleted reference) ?_ ?_) fun _ =>
        Triple.pure fun w hw => hw
    · rintro w ⟨hw, hgone⟩
      exact ⟨hfile w hw, KeyStore.erase_self .., Or.inl hgone⟩
    · exact fun w hw => hfile w hw.1
  | true =>
    refine Triple.bind (Triple.write (fun w hw => hw)
      (Q := fun _ w => I w ∧ w.stores.managedFiles reference = none) ?_ ?_) fun _ => ?_
    · exact fun w hw => ⟨hfile w hw, KeyStore.erase_self ..⟩
    · exact fun w hw => hfile w hw
    · refine Triple.update fun w hw => ⟨hrefused w hw.1, hw.2, Or.inr ?_⟩
      exact List.mem_append_right _ (List.mem_singleton.mpr rfl)

/-! ## Removing slots -/

/-- Deleting those of these managed keys that are not in use keeps the property. -/
structure KeepsManaged (slots : List String) (I : World → Prop) : Prop where
  keychain : ∀ r ∈ slots, ∀ w, r ∉ w.connections.managedSlots → I w → I (w.eraseManagedKeychain r)
  file : ∀ r ∈ slots, ∀ w, r ∉ w.connections.managedSlots → I w → I (w.eraseManagedFile r)
  refused : ∀ r ∈ slots, ∀ w, r ∉ w.connections.managedSlots → I w → I (w.refused r)

/-- The slots of managed keys that are not in use are deleted. -/
theorem triple_removeSyncedManagedKeySlots {slots : List String} (hI : KeepsManaged slots I) :
    Triple I (removeSyncedManagedKeySlots slots)
      (fun _ w => I w ∧ ∀ r ∈ slots, r ∈ w.connections.managedSlots ∨ w.ManagedDeleted r) I := by
  refine Triple.forM_each fun r hr done => ?_
  refine Triple.bind (Triple.gets (Q := fun data w => data = w.connections ∧ I w ∧
    ∀ b ∈ done, b ∈ w.connections.managedSlots ∨ w.ManagedDeleted b)
    fun w hw => ⟨rfl, hw⟩) fun data => ?_
  split
  · next hused =>
    refine Triple.pure ?_
    rintro w ⟨rfl, hw, hdone⟩
    exact ⟨hw, List.forall_mem_cons.mpr ⟨Or.inl hused, hdone⟩⟩
  next hunused =>
  split
  · exact Triple.raise fun w hw => hw.2.1
  · refine ((triple_deleteManagedSshKeySecret (I := fun w => r ∉ w.connections.managedSlots ∧
      I w ∧ ∀ b ∈ done, b ∈ w.connections.managedSlots ∨ w.ManagedDeleted b)
      ?_ ?_ ?_).before ?_).weaken ?_ fun w hw => hw.2.1
    · rintro w ⟨hr', hw, hdone⟩
      exact ⟨hr', hI.keychain r hr w hr' hw, fun b hb =>
        (hdone b hb).imp_right fun h => h.eraseManagedKeychain r⟩
    · rintro w ⟨hr', hw, hdone⟩
      exact ⟨hr', hI.file r hr w hr' hw, fun b hb =>
        (hdone b hb).imp_right fun h => h.eraseManagedFile r⟩
    · rintro w ⟨hr', hw, hdone⟩
      exact ⟨hr', hI.refused r hr w hr' hw, fun b hb =>
        (hdone b hb).imp_right fun h => h.refused r⟩
    · rintro w ⟨rfl, hw⟩
      exact ⟨hunused, hw⟩
    · rintro _ w ⟨⟨-, hw, hdone⟩, hgone⟩
      exact ⟨hw, List.forall_mem_cons.mpr ⟨Or.inr hgone, hdone⟩⟩

/-- The slots of privilege credentials that are not in use are deleted. -/
theorem triple_removeSyncedPrivilegeSlots {slots : List String}
    (hI : ∀ r ∈ slots, ∀ w, r ∉ w.connections.activePrivilegeKeychainIds → I w →
      I (w.erasePrivilegeKeychain r)) :
    Triple I (removeSyncedPrivilegeSlots slots)
      (fun _ w => I w ∧ ∀ r ∈ slots, r ∈ w.connections.activePrivilegeKeychainIds ∨
        w.stores.privilegeKeychain r = none) I := by
  refine Triple.forM_each fun r hr done => ?_
  refine Triple.bind (Triple.gets (Q := fun data w => data = w.connections ∧ I w ∧
    ∀ b ∈ done, b ∈ w.connections.activePrivilegeKeychainIds ∨
      w.stores.privilegeKeychain b = none) fun w hw => ⟨rfl, hw⟩) fun data => ?_
  split
  · next hused =>
    refine Triple.pure ?_
    rintro w ⟨rfl, hw, hdone⟩
    exact ⟨hw, List.forall_mem_cons.mpr ⟨Or.inl hused, hdone⟩⟩
  · next hunused =>
    refine ((deletion_privilegeKeychain.triple r (fun w =>
      r ∉ w.connections.activePrivilegeKeychainIds ∧ I w ∧
      ∀ b ∈ done, b ∈ w.connections.activePrivilegeKeychainIds ∨
        w.stores.privilegeKeychain b = none) ?_).before ?_).weaken ?_ fun w hw => hw.2.1
    · rintro w ⟨hr', hw, hdone⟩
      exact ⟨hr', hI r hr w hr' hw, fun b hb =>
        (hdone b hb).imp_right (deletion_privilegeKeychain.stable r b w)⟩
    · rintro w ⟨rfl, hw⟩
      exact ⟨hunused, hw⟩
    · rintro _ w ⟨⟨-, hw, hdone⟩, hgone⟩
      exact ⟨hw, List.forall_mem_cons.mpr ⟨Or.inr hgone, hdone⟩⟩

section

variable {delete : String → Access Unit} {erase : World → String → World}
  {gone : String → World → Prop}

/-- Every slot is gone or among those returned. -/
theorem triple_deleteEach (hD : Deletion delete erase gone) {slots : List String}
    (hI : ∀ r ∈ slots, ∀ w, I w → I (erase w r)) :
    Triple I (deleteEach delete slots)
      (fun failed w => I w ∧ (∀ b ∈ slots, b ∈ failed ∨ gone b w) ∧ ∀ b ∈ failed, b ∈ slots) I := by
  refine ((Triple.foldlM (P := fun rest failed w => I w ∧
    (∀ b ∈ slots, b ∈ rest ∨ b ∈ failed ∨ gone b w) ∧ (∀ b ∈ failed, b ∈ slots) ∧
      ∀ b ∈ rest, b ∈ slots) ?_ slots []).before ?_).weaken ?_ fun _ hw => hw
  · intro a rest failed
    refine Triple.of_eq fun w₀ h₀ => ?_
    have hslot : a ∈ slots := h₀.2.2.2 a List.mem_cons_self
    have hstep := triple_fails (hD.triple a (fun w => I w ∧
      ∀ b ∈ slots, b ∈ a :: rest ∨ b ∈ failed ∨ gone b w) ?_)
    · refine ((hstep.before ?_).weaken (fun _ _ hw => hw) fun w hw => hw.1).bind fun refused => ?_
      · rintro w rfl
        exact ⟨h₀.1, h₀.2.1⟩
      · refine Triple.pure fun w hw => ?_
        cases refused with
        | false =>
          obtain ⟨⟨hw, hleft⟩, hgone⟩ : (I w ∧ ∀ b ∈ slots, b ∈ a :: rest ∨ b ∈ failed ∨
            gone b w) ∧ gone a w := by simpa using hw
          refine ⟨hw, fun b hb => ?_, h₀.2.2.1, fun b hb => h₀.2.2.2 b (List.mem_cons_of_mem a hb)⟩
          rcases hleft b hb with hmem | hmem | hmem
          · rcases List.mem_cons.mp hmem with rfl | hrest
            · exact Or.inr (Or.inr hgone)
            · exact Or.inl hrest
          · exact Or.inr (Or.inl (by simpa using hmem))
          · exact Or.inr (Or.inr hmem)
        | true =>
          obtain ⟨hw, hleft⟩ : I w ∧ ∀ b ∈ slots, b ∈ a :: rest ∨ b ∈ failed ∨ gone b w := by
            simpa using hw
          refine ⟨hw, fun b hb => ?_, ?_, fun b hb => h₀.2.2.2 b (List.mem_cons_of_mem a hb)⟩
          · rcases hleft b hb with hmem | hmem | hmem
            · rcases List.mem_cons.mp hmem with rfl | hrest
              · exact Or.inr (Or.inl (by simp))
              · exact Or.inl hrest
            · exact Or.inr (Or.inl (by simp [hmem]))
            · exact Or.inr (Or.inr hmem)
          · intro b hb
            rcases (show b ∈ failed ∨ b = a by simpa using hb) with hb | rfl
            · exact h₀.2.2.1 b hb
            · exact hslot
    · rintro w ⟨hw, hleft⟩
      exact ⟨hI a hslot w hw, fun b hb =>
        (hleft b hb).imp_right fun h => h.imp_right (hD.stable a b w)⟩
  · exact fun w hw => ⟨hw, fun b hb => Or.inl hb, by simp, fun b hb => hb⟩
  · rintro failed w ⟨hw, hleft, hfailed, -⟩
    exact ⟨hw, fun b hb => (hleft b hb).resolve_left (by simp), hfailed⟩

end

/-- Slots that were created are deleted, whether they are in use or not. -/
theorem triple_removeStagedProfileCredentialSlots {slots : List String}
    (hI : ∀ r ∈ slots, ∀ w, I w → I (w.eraseKeychain r)) :
    Triple I (removeStagedProfileCredentialSlots slots)
      (fun _ w => I w ∧ ∀ r ∈ slots, w.stores.keychain r = none) I := by
  have hloop := Triple.foldlM (E := I) (P := fun rest failed w => I w ∧
    (failed = false → ∀ b ∈ slots, b ∈ rest ∨ w.stores.keychain b = none) ∧
      ∀ b ∈ rest, b ∈ slots) (f := fun failed reference => (do
    if ¬ "oxide_sync_credential_".toList <+: reference.toList ∧
        ¬ "oxide_global_proxy_".toList <+: reference.toList then
      raise "Invalid staged credential slot"
    else
      let refused ← fails (deleteKeychain reference)
      pure (failed || refused) : Access Bool)) ?_ slots false
  · refine (hloop.before ?_).bind fun failed => ?_
    · exact fun w hw => ⟨hw, fun _ b hb => Or.inl hb, fun b hb => hb⟩
    · cases failed with
      | true => exact Triple.raise fun w hw => hw.1
      | false =>
        exact Triple.pure fun w hw =>
          ⟨hw.1, fun r hr => (hw.2.1 rfl r hr).resolve_left (by simp)⟩
  · intro a rest failed
    refine Triple.of_eq fun w₀ h₀ => ?_
    have hslot : a ∈ slots := h₀.2.2 a List.mem_cons_self
    split
    · refine Triple.raise ?_
      rintro w rfl
      exact h₀.1
    · have hstep := triple_fails (deletion_keychain.triple a (fun w => I w ∧
        (failed = false → ∀ b ∈ slots, b ∈ a :: rest ∨ w.stores.keychain b = none)) ?_)
      · refine ((hstep.before ?_).weaken (fun _ _ hw => hw) fun w hw => hw.1).bind
          fun refused => ?_
        · rintro w rfl
          exact ⟨h₀.1, h₀.2.1⟩
        · refine Triple.pure fun w hw => ?_
          cases refused with
          | true =>
            obtain ⟨hw, -⟩ : I w ∧ _ := by simpa using hw
            exact ⟨hw, by simp, fun b hb => h₀.2.2 b (List.mem_cons_of_mem a hb)⟩
          | false =>
            obtain ⟨⟨hw, hleft⟩, hgone⟩ : (I w ∧ (failed = false → ∀ b ∈ slots, b ∈ a :: rest ∨
              w.stores.keychain b = none)) ∧ w.stores.keychain a = none := by simpa using hw
            refine ⟨hw, fun hfailed b hb => ?_, fun b hb => h₀.2.2 b (List.mem_cons_of_mem a hb)⟩
            rcases hleft (by simpa using hfailed) b hb with hmem | hmem
            · rcases List.mem_cons.mp hmem with rfl | hrest
              · exact Or.inr hgone
              · exact Or.inl hrest
            · exact Or.inr hmem
      · rintro w ⟨hw, hleft⟩
        exact ⟨hI a hslot w hw, fun hfailed b hb =>
          (hleft hfailed b hb).imp_right (deletion_keychain.stable a b w)⟩

/-! ## The replica and the keys of providers -/

section

variable {Context : Type} {codec : Codec Context}

theorem triple_saveReplica {record : LocalReplica}
    (hI : ∀ w, I w → I { w with replica := some record }) :
    Triple I (saveReplica codec record) (fun _ w => I w ∧ w.replica = some record) I := by
  refine Triple.access (fun _ hw => hw) ?_ ?_
  · intro w o w' u hw hrun
    obtain ⟨rfl, hok⟩ := Prod.mk.inj hrun
    have hsaved := ReplicaStore.save_ok hok
    rw [hsaved]
    exact ⟨hI w hw, rfl⟩
  · intro w o w' e hw hrun
    obtain ⟨rfl, -⟩ := Prod.mk.inj hrun
    rcases ReplicaStore.save_cases (Prod.mk.eta (p := ReplicaStore.save codec w.replica record o)).symm
      with hsame | hsaved
    · rw [hsame]
      exact hw
    · rw [hsaved]
      exact hI w hw

end

/-- Storing this key, and recording whether there is one, keeps the property. -/
structure KeepsProvider (providerId apiKey : String) (I : World → Prop) : Prop where
  key : ∀ w, I w → I (w.setStores fun s =>
    { s with providerKeys := Function.update s.providerKeys providerId apiKey })
  account : ∀ w removed, I w → I (w.setStores fun s =>
    { s with accounts := Function.update s.accounts providerId (some removed) })

theorem triple_storeProviderKey {providerId apiKey : String}
    (hI : KeepsProvider providerId apiKey I) :
    Triple I (storeProviderKey providerId apiKey)
      (fun _ w => I w ∧ w.stores.providerKeys providerId = apiKey) I := by
  unfold storeProviderKey
  split
  · exact Triple.raise fun _ hw => hw
  · refine Triple.bind (triple_writeStores (Q := fun w => I w ∧
      w.stores.providerKeys providerId = apiKey) ?_ (fun _ hw => hw) hI.key) fun _ => ?_
    · exact fun w hw => ⟨hI.key w hw, Function.update_self ..⟩
    · refine Triple.bind (Triple.attempt (Q := fun _ w => I w ∧
        w.stores.providerKeys providerId = apiKey) (fun w hw => hw.1) fun w hw => hw) fun _ => ?_
      refine Triple.bind (Triple.gets (Q := fun _ w => I w ∧
        w.stores.providerKeys providerId = apiKey) fun w hw => hw) fun accounts => ?_
      split
      · exact Triple.pure fun w hw => hw
      · refine triple_writeStores ?_ (fun w hw => hw.1) ?_
        · exact fun w hw => ⟨hI.account w _ hw.1, hw.2⟩
        · exact fun w hw => hI.account w _ hw.1

/-- Every key is stored, if the same key comes with the same provider. -/
theorem triple_applyAuxiliary {secrets : List (String × String)} {value : String → String}
    (hvalue : ∀ p ∈ secrets, p.2 = value p.1)
    (hI : ∀ p ∈ secrets, KeepsProvider p.1 p.2 I) :
    Triple I (applyAuxiliary secrets)
      (fun _ w => I w ∧ ∀ p ∈ secrets, w.stores.providerKeys p.1 = value p.1) I := by
  refine Triple.forM_each fun p hp done => ?_
  refine ((triple_storeProviderKey (I := fun w => I w ∧
    ∀ b ∈ done, w.stores.providerKeys b.1 = value b.1) ⟨?_, ?_⟩).weaken ?_ fun w hw => hw.1)
  · rintro w ⟨hw, hdone⟩
    refine ⟨(hI p hp).key w hw, fun b hb => ?_⟩
    show Function.update w.stores.providerKeys p.1 p.2 b.1 = value b.1
    by_cases hsame : b.1 = p.1
    · rw [hsame, Function.update_self, hvalue p hp]
    · rw [Function.update_of_ne hsame, hdone b hb]
  · rintro w removed ⟨hw, hdone⟩
    exact ⟨(hI p hp).account w removed hw, hdone⟩
  · rintro _ w ⟨⟨hw, hdone⟩, hstored⟩
    exact ⟨hw, List.forall_mem_cons.mpr ⟨hstored.trans (hvalue p hp), hdone⟩⟩

end Access

/-- What putting entries back comes to, if they all come from one place. -/
theorem Access.restoredAccounts_eq {known : String → Option Bool} :
    (previous : List (String × Option Bool)) → (∀ p ∈ previous, p.2 = known p.1) →
    (accounts : String → Option Bool) → (id : String) →
    restoredAccounts accounts previous id =
      if id ∈ previous.map Prod.fst then known id else accounts id
  | [], _, accounts, id => by simp [restoredAccounts]
  | p :: rest, h, accounts, id => by
    have ih := restoredAccounts_eq rest (fun q hq => h q (List.mem_cons_of_mem p hq))
      (Function.update accounts p.1 p.2) id
    show restoredAccounts (Function.update accounts p.1 p.2) rest id = _
    rw [ih]
    by_cases hrest : id ∈ rest.map Prod.fst
    · rw [if_pos hrest, if_pos (by simpa using Or.inr (by simpa using hrest))]
    · by_cases hid : id = p.1
      · rw [if_neg hrest, if_pos (by simp [hid]), hid, Function.update_self, h p List.mem_cons_self]
      · rw [if_neg hrest, if_neg, Function.update_of_ne hid]
        rw [List.map_cons, List.mem_cons, not_or]
        exact ⟨hid, hrest⟩

end OxideTerm.CloudSync
