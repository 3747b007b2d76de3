import ContentMounts.Pool.Basic
import ContentMounts.Provider.World

/-!
# Pools with a provider for archives

The pool that an application works with unless it brings its own providers.
-/

namespace ContentMounts

namespace Pool

/-- A pool with a provider for the archives of the configured schemes, unless there are none. -/
def withDefaultProviders (config : PoolConfig) (w : World) :
    Except MountError (Pool ProvidedResource) × World :=
  if config.archiveSchemes.isEmpty then (.ok (ofConfig config), w)
  else
    let archives := ArchiveProvider.ofSchemes config.archiveSchemes config.entryCache
    let (provider, w) := w.addProvider (.archive archives)
    ((ofConfig config).registerProvider archives.schemes provider, w)

/-- Registers a provider that follows a script: its number and the pool with it, or why it is
refused. -/
def registerScripted (p : Pool ProvidedResource) (provider : ScriptedProvider) (w : World) :
    Except MountError (ProviderId × Pool ProvidedResource) × World :=
  let (id, w) := w.addProvider (.scripted provider)
  ((p.registerProvider provider.schemes id).map fun p => (id, p), w)

end Pool

end ContentMounts
