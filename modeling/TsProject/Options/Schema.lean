import TsProject.Json.Basic

/-!
# The options of the compiler

The closed table of the options that a configuration may set, in the order in which problems
with them are reported, and the kind of value that each takes. A few options hold paths.
-/

namespace TsProject

/-- The kind of value that an option takes. -/
inductive OptionKind where
  | boolean
  | number
  | text
  /-- One of the listed names, in any case. -/
  | choice (names : List String)
  /-- A list of texts. -/
  | texts
  /-- A list of texts in any case. -/
  | loweredTexts
  /-- Lists of texts by pattern. -/
  | mapping
  /-- A list of objects. -/
  | objects
  deriving DecidableEq, Repr

/-- An option of the compiler. -/
structure OptionSpec where
  name : String
  kind : OptionKind
  deriving DecidableEq, Repr

namespace OptionSpec

/-- The language levels of the output. -/
def targetNames : List String :=
  ["es3", "es5", "es6", "es2015", "es2016", "es2017", "es2018", "es2019", "es2020", "es2021",
   "es2022", "es2023", "es2024", "es2025", "esnext"]

/-- The module systems of the output. -/
def moduleNames : List String :=
  ["none", "commonjs", "amd", "umd", "system", "es6", "es2015", "es2020", "es2022", "esnext",
   "node16", "node18", "node20", "nodenext", "preserve"]

/-- The ways to find an imported module. -/
def moduleResolutionNames : List String :=
  ["classic", "node", "node10", "node16", "nodenext", "bundler"]

/-- The ways to tell a module from a script. -/
def moduleDetectionNames : List String :=
  ["auto", "legacy", "force"]

/-- The treatments of embedded markup. -/
def jsxNames : List String :=
  ["preserve", "react", "react-native", "react-jsx", "react-jsxdev"]

/-- The line endings of the output. -/
def newLineNames : List String :=
  ["crlf", "lf"]

/-- The treatments of imports that are only used as types. -/
def importsNotUsedAsValuesNames : List String :=
  ["remove", "preserve", "error"]

/-- Options on the language and its environment. -/
def languageOptions : List OptionSpec := [
  ⟨"target", .choice targetNames⟩,
  ⟨"lib", .loweredTexts⟩,
  ⟨"jsx", .choice jsxNames⟩,
  ⟨"jsxFactory", .text⟩,
  ⟨"jsxFragmentFactory", .text⟩,
  ⟨"jsxImportSource", .text⟩,
  ⟨"reactNamespace", .text⟩,
  ⟨"noLib", .boolean⟩,
  ⟨"useDefineForClassFields", .boolean⟩,
  ⟨"experimentalDecorators", .boolean⟩,
  ⟨"emitDecoratorMetadata", .boolean⟩,
  ⟨"moduleDetection", .choice moduleDetectionNames⟩,
  ⟨"libReplacement", .boolean⟩]

/-- Options on modules and their resolution. -/
def modulesOptions : List OptionSpec := [
  ⟨"module", .choice moduleNames⟩,
  ⟨"moduleResolution", .choice moduleResolutionNames⟩,
  ⟨"baseUrl", .text⟩,
  ⟨"paths", .mapping⟩,
  ⟨"rootDirs", .texts⟩,
  ⟨"typeRoots", .texts⟩,
  ⟨"types", .texts⟩,
  ⟨"allowUmdGlobalAccess", .boolean⟩,
  ⟨"moduleSuffixes", .texts⟩,
  ⟨"allowImportingTsExtensions", .boolean⟩,
  ⟨"rewriteRelativeImportExtensions", .boolean⟩,
  ⟨"resolvePackageJsonExports", .boolean⟩,
  ⟨"resolvePackageJsonImports", .boolean⟩,
  ⟨"customConditions", .texts⟩,
  ⟨"resolveJsonModule", .boolean⟩,
  ⟨"allowArbitraryExtensions", .boolean⟩,
  ⟨"noResolve", .boolean⟩,
  ⟨"noUncheckedSideEffectImports", .boolean⟩]

/-- Options on JavaScript sources. -/
def javaScriptOptions : List OptionSpec := [
  ⟨"allowJs", .boolean⟩,
  ⟨"checkJs", .boolean⟩,
  ⟨"maxNodeModuleJsDepth", .number⟩]

/-- Options on the output. -/
def emitOptions : List OptionSpec := [
  ⟨"declaration", .boolean⟩,
  ⟨"declarationMap", .boolean⟩,
  ⟨"emitDeclarationOnly", .boolean⟩,
  ⟨"sourceMap", .boolean⟩,
  ⟨"inlineSourceMap", .boolean⟩,
  ⟨"inlineSources", .boolean⟩,
  ⟨"sourceRoot", .text⟩,
  ⟨"mapRoot", .text⟩,
  ⟨"outFile", .text⟩,
  ⟨"outDir", .text⟩,
  ⟨"rootDir", .text⟩,
  ⟨"declarationDir", .text⟩,
  ⟨"removeComments", .boolean⟩,
  ⟨"noEmit", .boolean⟩,
  ⟨"noEmitOnError", .boolean⟩,
  ⟨"importHelpers", .boolean⟩,
  ⟨"downlevelIteration", .boolean⟩,
  ⟨"emitBOM", .boolean⟩,
  ⟨"newLine", .choice newLineNames⟩,
  ⟨"stripInternal", .boolean⟩,
  ⟨"noEmitHelpers", .boolean⟩,
  ⟨"preserveConstEnums", .boolean⟩]

/-- Options on how modules of different systems meet. -/
def interopOptions : List OptionSpec := [
  ⟨"isolatedModules", .boolean⟩,
  ⟨"isolatedDeclarations", .boolean⟩,
  ⟨"verbatimModuleSyntax", .boolean⟩,
  ⟨"allowSyntheticDefaultImports", .boolean⟩,
  ⟨"esModuleInterop", .boolean⟩,
  ⟨"preserveSymlinks", .boolean⟩,
  ⟨"forceConsistentCasingInFileNames", .boolean⟩,
  ⟨"erasableSyntaxOnly", .boolean⟩]

/-- Options on the checks of types. -/
def checkingOptions : List OptionSpec := [
  ⟨"strict", .boolean⟩,
  ⟨"noImplicitAny", .boolean⟩,
  ⟨"strictNullChecks", .boolean⟩,
  ⟨"strictFunctionTypes", .boolean⟩,
  ⟨"strictBindCallApply", .boolean⟩,
  ⟨"strictPropertyInitialization", .boolean⟩,
  ⟨"strictBuiltinIteratorReturn", .boolean⟩,
  ⟨"noImplicitThis", .boolean⟩,
  ⟨"useUnknownInCatchVariables", .boolean⟩,
  ⟨"alwaysStrict", .boolean⟩,
  ⟨"noUnusedLocals", .boolean⟩,
  ⟨"noUnusedParameters", .boolean⟩,
  ⟨"exactOptionalPropertyTypes", .boolean⟩,
  ⟨"noImplicitReturns", .boolean⟩,
  ⟨"noFallthroughCasesInSwitch", .boolean⟩,
  ⟨"noUncheckedIndexedAccess", .boolean⟩,
  ⟨"noImplicitOverride", .boolean⟩,
  ⟨"noPropertyAccessFromIndexSignature", .boolean⟩,
  ⟨"allowUnusedLabels", .boolean⟩,
  ⟨"allowUnreachableCode", .boolean⟩]

/-- Options on projects and incremental state. -/
def projectsOptions : List OptionSpec := [
  ⟨"incremental", .boolean⟩,
  ⟨"composite", .boolean⟩,
  ⟨"tsBuildInfoFile", .text⟩,
  ⟨"skipLibCheck", .boolean⟩,
  ⟨"skipDefaultLibCheck", .boolean⟩,
  ⟨"noCheck", .boolean⟩,
  ⟨"disableSizeLimit", .boolean⟩,
  ⟨"disableSolutionSearching", .boolean⟩,
  ⟨"disableReferencedProjectLoad", .boolean⟩,
  ⟨"disableSourceOfProjectReferenceRedirect", .boolean⟩,
  ⟨"assumeChangesOnlyAffectDirectDependencies", .boolean⟩]

/-- Options for editors. -/
def editorOptions : List OptionSpec := [
  ⟨"plugins", .objects⟩]

/-- Options on the form of messages. -/
def formattingOptions : List OptionSpec := [
  ⟨"noErrorTruncation", .boolean⟩,
  ⟨"pretty", .boolean⟩,
  ⟨"preserveWatchOutput", .boolean⟩,
  ⟨"locale", .text⟩]

/-- Options on what the compiler tells about its work. -/
def reportingOptions : List OptionSpec := [
  ⟨"listFiles", .boolean⟩,
  ⟨"listEmittedFiles", .boolean⟩,
  ⟨"diagnostics", .boolean⟩,
  ⟨"extendedDiagnostics", .boolean⟩,
  ⟨"explainFiles", .boolean⟩,
  ⟨"traceResolution", .boolean⟩,
  ⟨"generateCpuProfile", .text⟩,
  ⟨"generateTrace", .text⟩]

/-- Options kept for older configurations. -/
def deprecatedOptions : List OptionSpec := [
  ⟨"ignoreDeprecations", .text⟩,
  ⟨"importsNotUsedAsValues", .choice importsNotUsedAsValuesNames⟩,
  ⟨"preserveValueImports", .boolean⟩,
  ⟨"noImplicitUseStrict", .boolean⟩,
  ⟨"noStrictGenericChecks", .boolean⟩,
  ⟨"keyofStringsOnly", .boolean⟩,
  ⟨"suppressExcessPropertyErrors", .boolean⟩,
  ⟨"suppressImplicitAnyIndexErrors", .boolean⟩,
  ⟨"out", .text⟩,
  ⟨"charset", .text⟩]

/-- **Every option**, in the order in which problems are reported. -/
def all : List OptionSpec :=
  languageOptions ++ modulesOptions ++ javaScriptOptions ++ emitOptions ++
    interopOptions ++ checkingOptions ++ projectsOptions ++ editorOptions ++
    formattingOptions ++ reportingOptions ++ deprecatedOptions

/-- The option of a name. -/
def find? (name : String) : Option OptionSpec := all.find? (·.name = name)

/-- The names of all options. -/
def names : List String := all.map (·.name)

/-- The options that hold one path. -/
def pathNames : List String :=
  ["outDir", "rootDir", "baseUrl", "declarationDir", "outFile", "out", "tsBuildInfoFile",
   "generateCpuProfile", "generateTrace"]

/-- The options that hold a list of paths. -/
def pathListNames : List String := ["typeRoots", "rootDirs"]

end OptionSpec

end TsProject
