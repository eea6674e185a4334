import ModuleLinker.Extensions

/-!
# Rebinding of imports

The import statements of a member are generated before the names in the merged
scope are known.  The rebinding tap gives their bindings the final names: a name
that the member exports again under the same name follows that export, and any
other binding follows the member's own new name for it.
-/

namespace ModuleLinker

namespace Rebinding

/-- The final name of an import binding, if it has one. -/
def finalName? (map : ExportMap) (localNames : OrderedMap String String)
    (specifier : ImportSpecifier) : Option String :=
  match map.find? specifier.imported with
  | some (.identifier name) => some name
  | _ => localNames.find? specifier.binding

/-- An import specifier with its final binding. -/
def rebind (map : ExportMap) (localNames : OrderedMap String String)
    (specifier : ImportSpecifier) : ImportSpecifier :=
  { specifier with
    binding := (finalName? map localNames specifier).getD specifier.binding }

/-- An import statement with its final bindings. -/
def rebindStatement (map : ExportMap) (localNames : OrderedMap String String)
    (statement : ImportStatement) : ImportStatement :=
  { statement with specifiers := statement.specifiers.map (rebind map localNames) }

/-- The rebinding of all import statements of a member as a map tap.  It leaves
the export map as it is, but reports a change when any binding changed. -/
def tap : MapTap where
  name := "import rebinding"
  run _ map member :=
    let imports := member.imports.map (rebindStatement map member.localNames)
    let answer := if imports = member.imports then MapAnswer.keep else MapAnswer.replace map
    pure ({ member with imports }, .ok answer)

/-- Rebinding changes no request and no imported name. -/
theorem imported_rebind (map : ExportMap) (localNames : OrderedMap String String)
    (specifier : ImportSpecifier) :
    (rebind map localNames specifier).imported = specifier.imported := rfl

end Rebinding

end ModuleLinker
