import Coupling.Text.Dotted

/-! `java.lang` is listed in full. The other tables hold the common members of their package; any
further name in a package of the standard library is taken on trust by name resolution. -/
namespace Coupling.StandardLibrary

def packages : List (String × List String) := [
  ("java.lang", [
    "AbstractMethodError", "Appendable", "ArithmeticException", "ArrayIndexOutOfBoundsException",
    "ArrayStoreException", "AssertionError", "AutoCloseable", "Boolean", "BootstrapMethodError",
    "Byte", "CharSequence", "Character", "Class", "ClassCastException", "ClassCircularityError",
    "ClassFormatError", "ClassLoader", "ClassNotFoundException", "ClassValue",
    "CloneNotSupportedException", "Cloneable", "Comparable", "Deprecated", "Double", "Enum",
    "EnumConstantNotPresentException", "Error", "Exception", "ExceptionInInitializerError",
    "Float", "FunctionalInterface", "IllegalAccessError", "IllegalAccessException",
    "IllegalArgumentException", "IllegalCallerException", "IllegalMonitorStateException",
    "IllegalStateException", "IllegalThreadStateException", "IncompatibleClassChangeError",
    "IndexOutOfBoundsException", "InheritableThreadLocal", "InstantiationError",
    "InstantiationException", "Integer", "InternalError", "InterruptedException", "Iterable",
    "LayerInstantiationException", "LinkageError", "Long", "MatchException", "Math", "Module",
    "ModuleLayer", "NegativeArraySizeException", "NoClassDefFoundError", "NoSuchFieldError",
    "NoSuchFieldException", "NoSuchMethodError", "NoSuchMethodException", "NullPointerException",
    "Number", "NumberFormatException", "Object", "OutOfMemoryError", "Override", "Package",
    "Process", "ProcessBuilder", "ProcessHandle", "Readable", "Record",
    "ReflectiveOperationException", "Runnable", "Runtime", "RuntimeException", "RuntimePermission",
    "SafeVarargs", "ScopedValue", "SecurityException", "SecurityManager", "Short",
    "StackOverflowError", "StackTraceElement", "StackWalker", "StrictMath", "String",
    "StringBuffer", "StringBuilder", "StringIndexOutOfBoundsException", "StringTemplate",
    "SuppressWarnings", "System", "Thread", "ThreadDeath", "ThreadGroup", "ThreadLocal",
    "Throwable", "TypeNotPresentException", "UnknownError", "UnsatisfiedLinkError",
    "UnsupportedClassVersionError", "UnsupportedOperationException", "VerifyError",
    "VirtualMachineError", "Void", "WrongThreadException"]),
  ("java.util", [
    "AbstractCollection", "AbstractList", "AbstractMap", "AbstractQueue", "AbstractSequentialList",
    "AbstractSet", "ArrayDeque", "ArrayList", "Arrays", "Base64", "BitSet", "Calendar",
    "Collection", "Collections", "Comparator", "ConcurrentModificationException", "Currency",
    "Date", "Deque", "Dictionary", "DoubleSummaryStatistics", "EnumMap", "EnumSet", "Enumeration",
    "EventListener", "EventObject", "Formatter", "GregorianCalendar", "HashMap", "HashSet",
    "Hashtable", "HexFormat", "IdentityHashMap", "IllegalFormatException",
    "InputMismatchException", "IntSummaryStatistics", "Iterator", "LinkedHashMap", "LinkedHashSet",
    "LinkedList", "List", "ListIterator", "Locale", "LongSummaryStatistics", "Map",
    "MissingResourceException", "NavigableMap", "NavigableSet", "NoSuchElementException",
    "Objects", "Observable", "Observer", "Optional", "OptionalDouble", "OptionalInt",
    "OptionalLong", "PrimitiveIterator", "PriorityQueue", "Properties", "Queue", "Random",
    "RandomAccess", "ResourceBundle", "Scanner", "SequencedCollection", "SequencedMap",
    "SequencedSet", "ServiceLoader", "Set", "SortedMap", "SortedSet", "SplittableRandom",
    "Spliterator", "Spliterators", "Stack", "StringJoiner", "StringTokenizer", "TimeZone", "Timer",
    "TimerTask", "TreeMap", "TreeSet", "UUID", "Vector", "WeakHashMap"]),
  ("java.util.function", [
    "BiConsumer", "BiFunction", "BiPredicate", "BinaryOperator", "BooleanSupplier", "Consumer",
    "DoubleBinaryOperator", "DoubleConsumer", "DoubleFunction", "DoublePredicate",
    "DoubleSupplier", "DoubleToIntFunction", "DoubleToLongFunction", "DoubleUnaryOperator",
    "Function", "IntBinaryOperator", "IntConsumer", "IntFunction", "IntPredicate", "IntSupplier",
    "IntToDoubleFunction", "IntToLongFunction", "IntUnaryOperator", "LongBinaryOperator",
    "LongConsumer", "LongFunction", "LongPredicate", "LongSupplier", "LongToDoubleFunction",
    "LongToIntFunction", "LongUnaryOperator", "ObjDoubleConsumer", "ObjIntConsumer",
    "ObjLongConsumer", "Predicate", "Supplier", "ToDoubleBiFunction", "ToDoubleFunction",
    "ToIntBiFunction", "ToIntFunction", "ToLongBiFunction", "ToLongFunction", "UnaryOperator"]),
  ("java.util.concurrent", [
    "ArrayBlockingQueue", "BlockingDeque", "BlockingQueue", "BrokenBarrierException", "Callable",
    "CancellationException", "CompletableFuture", "CompletionException", "CompletionService",
    "CompletionStage", "ConcurrentHashMap", "ConcurrentLinkedDeque", "ConcurrentLinkedQueue",
    "ConcurrentMap", "ConcurrentNavigableMap", "ConcurrentSkipListMap", "ConcurrentSkipListSet",
    "CopyOnWriteArrayList", "CopyOnWriteArraySet", "CountDownLatch", "CyclicBarrier", "DelayQueue",
    "Delayed", "Exchanger", "ExecutionException", "Executor", "ExecutorCompletionService",
    "ExecutorService", "Executors", "Flow", "ForkJoinPool", "ForkJoinTask", "Future", "FutureTask",
    "LinkedBlockingDeque", "LinkedBlockingQueue", "LinkedTransferQueue", "Phaser",
    "PriorityBlockingQueue", "RecursiveAction", "RecursiveTask", "RejectedExecutionException",
    "RejectedExecutionHandler", "RunnableFuture", "ScheduledExecutorService", "ScheduledFuture",
    "ScheduledThreadPoolExecutor", "Semaphore", "SubmissionPublisher", "SynchronousQueue",
    "ThreadFactory", "ThreadLocalRandom", "ThreadPoolExecutor", "TimeUnit", "TimeoutException",
    "TransferQueue"]),
  ("java.util.concurrent.atomic", [
    "AtomicBoolean", "AtomicInteger", "AtomicIntegerArray", "AtomicLong", "AtomicLongArray",
    "AtomicMarkableReference", "AtomicReference", "AtomicReferenceArray", "AtomicStampedReference",
    "DoubleAccumulator", "DoubleAdder", "LongAccumulator", "LongAdder"]),
  ("java.util.concurrent.locks", [
    "Condition", "Lock", "LockSupport", "ReadWriteLock", "ReentrantLock", "ReentrantReadWriteLock",
    "StampedLock"]),
  ("java.util.stream", [
    "BaseStream", "Collector", "Collectors", "DoubleStream", "IntStream", "LongStream", "Stream",
    "StreamSupport"]),
  ("java.io", [
    "BufferedInputStream", "BufferedOutputStream", "BufferedReader", "BufferedWriter",
    "ByteArrayInputStream", "ByteArrayOutputStream", "CharArrayReader", "CharArrayWriter",
    "Closeable", "Console", "DataInputStream", "DataOutputStream", "EOFException",
    "Externalizable", "File", "FileFilter", "FileInputStream", "FileNotFoundException",
    "FileOutputStream", "FileReader", "FileWriter", "FilenameFilter", "FilterInputStream",
    "FilterOutputStream", "Flushable", "IOException", "InputStream", "InputStreamReader",
    "InvalidObjectException", "LineNumberReader", "NotSerializableException", "ObjectInputStream",
    "ObjectOutputStream", "ObjectStreamException", "OutputStream", "OutputStreamWriter",
    "PrintStream", "PrintWriter", "PushbackInputStream", "RandomAccessFile", "Reader", "Serial",
    "Serializable", "StreamTokenizer", "StringReader", "StringWriter", "UncheckedIOException",
    "UnsupportedEncodingException", "Writer"]),
  ("java.nio", [
    "Buffer", "BufferOverflowException", "BufferUnderflowException", "ByteBuffer", "ByteOrder",
    "CharBuffer", "DoubleBuffer", "FloatBuffer", "IntBuffer", "LongBuffer", "MappedByteBuffer",
    "ShortBuffer"]),
  ("java.nio.charset", [
    "CharacterCodingException", "Charset", "CharsetDecoder", "CharsetEncoder", "StandardCharsets",
    "UnsupportedCharsetException"]),
  ("java.nio.file", [
    "AccessDeniedException", "CopyOption", "DirectoryNotEmptyException", "DirectoryStream",
    "FileAlreadyExistsException", "FileSystem", "FileSystems", "FileVisitOption",
    "FileVisitResult", "FileVisitor", "Files", "InvalidPathException", "LinkOption",
    "NoSuchFileException", "OpenOption", "Path", "PathMatcher", "Paths", "SimpleFileVisitor",
    "StandardCopyOption", "StandardOpenOption", "WatchEvent", "WatchKey", "WatchService"]),
  ("java.net", [
    "ConnectException", "CookieManager", "DatagramPacket", "DatagramSocket", "HttpCookie",
    "HttpURLConnection", "Inet4Address", "Inet6Address", "InetAddress", "InetSocketAddress",
    "MalformedURLException", "NetworkInterface", "Proxy", "ServerSocket", "Socket",
    "SocketAddress", "SocketException", "SocketTimeoutException", "URI", "URISyntaxException",
    "URL", "URLConnection", "URLDecoder", "URLEncoder", "UnknownHostException"]),
  ("java.math", [
    "BigDecimal", "BigInteger", "MathContext", "RoundingMode"]),
  ("java.text", [
    "BreakIterator", "ChoiceFormat", "Collator", "DateFormat", "DecimalFormat",
    "DecimalFormatSymbols", "FieldPosition", "Format", "MessageFormat", "Normalizer",
    "NumberFormat", "ParseException", "ParsePosition", "SimpleDateFormat"]),
  ("java.time", [
    "Clock", "DateTimeException", "DayOfWeek", "Duration", "Instant", "LocalDate", "LocalDateTime",
    "LocalTime", "Month", "MonthDay", "OffsetDateTime", "OffsetTime", "Period", "Year",
    "YearMonth", "ZoneId", "ZoneOffset", "ZonedDateTime"]),
  ("java.time.format", [
    "DateTimeFormatter", "DateTimeParseException", "FormatStyle"]),
  ("java.time.temporal", [
    "ChronoField", "ChronoUnit", "Temporal", "TemporalAdjuster", "TemporalAdjusters",
    "TemporalAmount", "TemporalUnit"])]

/-- Whether a package has a type of that name, as far as the tables go. -/
def contains (package name : String) : Bool :=
  match packages.find? (·.1 == package) with
  | some (_, types) => types.contains name
  | none => false

/-- The full name of a type of `java.lang`, which every unit imports. -/
def langType? (name : String) : Option String :=
  if contains "java.lang" name then some ("java.lang." ++ name) else none

def isPlatformPackage (package : String) : Bool :=
  package == "java" || package == "javax" || Text.startsWith package "java." ||
    Text.startsWith package "javax."

end Coupling.StandardLibrary
