import SecretDotenv.Secret.KeyVault
import SecretDotenv.Secret.SopsEnv
import SecretDotenv.Secret.Table

/-! What expansion knows of a vault: which requests it takes and what it does with
them. The vaults of this library work on one session, in which each has its part. -/
namespace SecretDotenv.Secret

open SecretDotenv.Machine

structure Vault (σ : Type) where
  name : String
  keyword : String
  isDefault : Bool := false
  /-- Expansion that can be stopped still lets this vault finish what it does. -/
  synchronous : Bool := false
  canHandle : List String → Bool
  expand : List String → Effect σ String
  expandAsync : List String → Effect σ String

structure Session where
  machine : Machine := {}
  cache : Cache := []
  log : List String := []

namespace Session

def onMachine {α : Type} (e : Effect Machine α) : Effect Session α :=
  e.within Session.machine fun machine s => { s with machine }

def onFiles {α : Type} (e : Effect SopsEnv.Store α) : Effect Session α :=
  e.within (fun s => { cache := s.cache, machine := s.machine })
    fun t s => { s with cache := t.cache, machine := t.machine }

def onTables {α : Type} (e : Effect Table.Store α) : Effect Session α :=
  e.within (fun s => { log := s.log, aborted := s.machine.aborted })
    fun t s => { s with log := t.log, machine := { s.machine with aborted := t.aborted } }

end Session

def KeyVault.toVault (v : KeyVault) (programs : Programs) : Vault Session where
  name := KeyVault.name
  keyword := v.keyword
  isDefault := v.isDefault
  canHandle := v.canHandle
  expand args := Session.onMachine (v.expand programs .blocking args)
  expandAsync args := Session.onMachine (v.expandAsync programs args)

def SopsEnv.toVault (v : SopsEnv) (programs : Programs) : Vault Session where
  name := SopsEnv.name
  keyword := v.keyword
  isDefault := v.isDefault
  canHandle := v.canHandle
  expand args := Session.onFiles (v.expand programs .blocking args)
  expandAsync args := Session.onFiles (v.expandAsync programs args)

def Table.toVault (v : Table) : Vault Session where
  name := v.name
  keyword := v.keyword
  isDefault := v.isDefault
  synchronous := v.synchronous
  canHandle := v.canHandle
  expand args := Session.onTables (v.expand args)
  expandAsync args := Session.onTables (v.expandAsync args)

end SecretDotenv.Secret
