import MonadBft.Eth.Transaction

/-!
# Nonce usage

A block's use of an account's nonce is known if the account signs a transaction in it. An
authorization uses the nonce only if it names the right one, which cannot be seen from the
block, so blocks with authorizations alone leave a list of possible nonces (`NonceUsage`).

A usage stands for what the block does to the account's nonce (`applyToAccountNonce`).
Merging a usage with that of the block before stands for doing the two in turn
(`applyToAccountNonce_mergeWithPrevious`).
-/

namespace MonadBft

inductive NonceUsage where
  /-- The last nonce used. -/
  | known (nonce : ℕ)
  /-- The nonces of authorizations, in order. -/
  | possible (nonces : List ℕ)
  deriving DecidableEq

namespace NonceUsage

/-- An authorization that names the account's nonce uses it. -/
def applyPossibleNoncesToAccountNonce (accountNonce : ℕ) (possibleNonces : List ℕ) : ℕ :=
  possibleNonces.foldl (fun nonce possible => if possible = nonce then nonce + 1 else nonce)
    accountNonce

/-- The nonce of an account after the usage. -/
def applyToAccountNonce : NonceUsage → ℕ → ℕ
  | known nonce, _ => nonce + 1
  | possible nonces, accountNonce => applyPossibleNoncesToAccountNonce accountNonce nonces

/-- Put an earlier usage before this one. -/
def mergeWithPrevious : NonceUsage → NonceUsage → NonceUsage
  | known nonce, _ => known nonce
  | possible nonces, known previousNonce =>
    known (nonces.foldl
      (fun nonce possible => if nonce + 1 = possible then nonce + 1 else nonce) previousNonce)
  | possible nonces, possible previousNonces => possible (previousNonces ++ nonces)

theorem applyPossibleNonces_append (n : ℕ) (l₁ l₂ : List ℕ) :
    applyPossibleNoncesToAccountNonce n (l₁ ++ l₂) =
      applyPossibleNoncesToAccountNonce (applyPossibleNoncesToAccountNonce n l₁) l₂ :=
  List.foldl_append

/-- The last used nonce stays one below the account's nonce. -/
theorem foldl_lastUsed (nonces : List ℕ) (nonce : ℕ) :
    nonces.foldl (fun nonce possible => if nonce + 1 = possible then nonce + 1 else nonce) nonce
        + 1 =
      applyPossibleNoncesToAccountNonce (nonce + 1) nonces := by
  induction nonces generalizing nonce with
  | nil => rfl
  | cons possible nonces ih =>
    unfold applyPossibleNoncesToAccountNonce
    rw [List.foldl_cons, List.foldl_cons]
    by_cases h : possible = nonce + 1
    · rw [if_pos h.symm, if_pos h]
      exact ih (nonce + 1)
    · rw [if_neg (Ne.symm h), if_neg h]
      exact ih nonce

theorem applyToAccountNonce_mergeWithPrevious (usage previous : NonceUsage) (n : ℕ) :
    (usage.mergeWithPrevious previous).applyToAccountNonce n =
      usage.applyToAccountNonce (previous.applyToAccountNonce n) := by
  cases usage with
  | known => rfl
  | possible nonces =>
    cases previous with
    | known previousNonce => exact foldl_lastUsed nonces previousNonce
    | possible previousNonces => exact applyPossibleNonces_append n previousNonces nonces

end NonceUsage

/-! ## Usages of all accounts -/

abbrev NonceUsageMap := AddressMap NonceUsage

/-- The nonce of an account after a usage that may be absent. -/
def nonceAfter (usage : Option NonceUsage) (n : ℕ) : ℕ :=
  usage.elim n fun usage => usage.applyToAccountNonce n

namespace NonceUsageMap

/-- Put an earlier block's usages before these. -/
def mergeWithPreviousBlock (usages previous : NonceUsageMap) : NonceUsageMap := fun address =>
  match usages address, previous address with
  | none, previousUsage => previousUsage
  | some usage, none => some usage
  | some usage, some previousUsage => some (usage.mergeWithPrevious previousUsage)

/-- The usages of consecutive blocks, merged from the last one back. -/
def getNonceUsages (blocks : List NonceUsageMap) : NonceUsageMap :=
  blocks.foldr (fun block usages => mergeWithPreviousBlock usages block) fun _ => none

theorem nonceAfter_mergeWithPreviousBlock (usages previous : NonceUsageMap) (address : Address)
    (n : ℕ) :
    nonceAfter (mergeWithPreviousBlock usages previous address) n =
      nonceAfter (usages address) (nonceAfter (previous address) n) := by
  unfold mergeWithPreviousBlock
  cases usages address with
  | none => rfl
  | some usage =>
    cases previous address with
    | none => rfl
    | some previousUsage => exact usage.applyToAccountNonce_mergeWithPrevious previousUsage n

/-- Merged usages do what the blocks do one after the other. -/
theorem nonceAfter_getNonceUsages (blocks : List NonceUsageMap) (address : Address) (n : ℕ) :
    nonceAfter (getNonceUsages blocks address) n =
      blocks.foldl (fun n block => nonceAfter (block address) n) n := by
  induction blocks generalizing n with
  | nil => rfl
  | cons block blocks ih =>
    have hcons : getNonceUsages (block :: blocks) =
        mergeWithPreviousBlock (getNonceUsages blocks) block := rfl
    rw [hcons, nonceAfter_mergeWithPreviousBlock, ih, List.foldl_cons]

/-- Only the usages of an account itself matter to it. -/
theorem getNonceUsages_congr {blocks blocks' : List NonceUsageMap} {address : Address}
    (h : blocks.map (· address) = blocks'.map (· address)) :
    getNonceUsages blocks address = getNonceUsages blocks' address := by
  induction blocks generalizing blocks' with
  | nil =>
    cases blocks' with
    | nil => rfl
    | cons => cases h
  | cons block blocks ih =>
    cases blocks' with
    | nil => cases h
    | cons block' blocks' =>
      obtain ⟨hblock, hblocks⟩ := List.cons.inj h
      replace hblock : block address = block' address := hblock
      change mergeWithPreviousBlock (getNonceUsages blocks) block address =
        mergeWithPreviousBlock (getNonceUsages blocks') block' address
      unfold mergeWithPreviousBlock
      rw [ih hblocks, hblock]

end NonceUsageMap

end MonadBft
